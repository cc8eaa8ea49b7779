import Numlet.Proofs.Check.Programs
import Numlet.Proofs.Typed.Sound

/-!
The trees that the checker makes are sound. Reads have the type of the storage because the last pass
reads what it ends with.
-/
namespace Numlet
open Checking

theorem ArgumentsRun.fits {es : List Expr} {types : List NumType} {s s' : Checker}
    {ts : List Typed.Expr} (h : ArgumentsRun es types s ts s') : Typed.Fits ts types := by
  induction es generalizing types s ts with
  | nil =>
    cases h
    exact .nil
  | cons e es ih =>
    cases h with
    | cons _ hp hs => exact .cons hp (ih hs)

/-- The storage of a slot after a value has been recorded in it. -/
theorem Checker.find?_recorded (s : Checker) (slot : String) (type : NumType) :
    ∃ t, (s.recorded slot type).storage.find? slot = some t ∧ type.rank ≤ t.rank :=
  ⟨_, Table.find?_insert_self _ _ _, NumType.rank_le_joinKnown _ _⟩

/-- After an assignment the slot can hold the value. -/
theorem AssignRun.storage {name : String} {place : Position} {value : Expr} {s s' : Checker} {slot : String}
    {t : Typed.Expr} {type : NumType} (h : AssignRun name place value s slot t type s') :
    ∃ u, s'.storage.find? slot = some u ∧ t.type.rank ≤ u.rank := by
  cases h with
  | bound _ _ ht =>
    obtain ⟨u, hu, hle⟩ := Checker.find?_recorded _ _ _
    refine ⟨u, hu, Nat.le_trans ?_ hle⟩
    rw [(NumType.assign?_eq_some_iff.mp ht).1]
    exact NumType.rank_le_join_right _ _
  | fresh => exact Checker.find?_recorded _ _ _

/-- A body from its start `s` to its end `s'`, in a program that ends in `z`, with its context. -/
structure Checker.Frames (z s s' : Checker) (c : Typed.Context) : Prop where
  bound : s.Bound
  reads : ∀ slot, s'.readTypes.find? slot = s'.storage.find? slot
  storage : ∀ slot, c.storage slot = s'.storage.find? slot
  later : s'.Later z
  signature : ∀ name signature, z.signatures.find? name = some signature →
    c.signature name = some (signature.parameters, signature.result)

namespace Checker.Frames

variable {z s s' s₁ : Checker} {c : Typed.Context}

/-- A slot that has storage anywhere in the body is read at the type that it has in the end. -/
theorem readType (h : z.Frames s s' c) (hg : s₁.Grows s') {slot : String} {t : NumType}
    (hs : s₁.storage.find? slot = some t) (type : NumType) :
    c.storage slot = some (s₁.readType slot type) ∧ t.rank ≤ (s₁.readType slot type).rank := by
  obtain ⟨u, hu, hle⟩ := hg.storage slot t hs
  have hread : s₁.readType slot type = u := by
    rw [Checker.readType, ← hg.readTypes, h.reads, hu]
    rfl
  rw [hread]
  exact ⟨(h.storage slot).trans hu, hle⟩

theorem holds (h : z.Frames s s' c) (hg : s₁.Grows s') {slot : String} {t type : NumType}
    (hs : s₁.storage.find? slot = some t) (ht : type.rank ≤ t.rank) : c.Holds slot type := by
  obtain ⟨u, hu, hle⟩ := hg.storage slot t hs
  exact ⟨u, (h.storage slot).trans hu, Nat.le_trans ht hle⟩

end Checker.Frames

theorem MadeExpr.exprOk {z s s' : Checker} {c : Typed.Context} {x : Typed.Expr}
    (h : MadeExpr s s' x) (hf : z.Frames s s' c) : c.ExprOk x := by
  have hknown := h.callKnown.later hf.later
  obtain ⟨e, hint, s₁, s₂, hrun, hin, hout⟩ := h
  cases hrun with
  | literal => exact ⟨_, rfl⟩
  | var hv | update hv =>
    obtain ⟨t, ht, -⟩ := hin.bound hf.bound _ _ hv
    exact (hf.readType hout ht _).1
  | binary _ _ _ ht => exact ht
  | widened _ _ _ _ ht => exact ht
  | unary => exact rfl
  | assign ha =>
    obtain ⟨u, hu, hle⟩ := ha.storage
    obtain ⟨hstorage, hrank⟩ := hf.readType hout hu _
    exact ⟨hstorage, Nat.le_trans hle hrank⟩
  | convert => exact ⟨rfl, rfl⟩
  | call _ ha | pinningCall _ ha =>
    obtain ⟨signature, hs, hp, -, -, hr⟩ := hknown
    obtain ⟨r, hres⟩ := Option.isSome_iff_exists.mp hr
    refine ⟨⟨r, ?_⟩, ha.fits⟩
    rw [hf.signature _ _ hs, hp, hres]

/-- Of returns it is known elsewhere that they fit. -/
theorem MadeStmt.stmtOk {z s s' : Checker} {c : Typed.Context} {x : Typed.Stmt}
    (h : MadeStmt s s' x) (hf : z.Frames s s' c)
    (hret : ∀ value span, x = .returnValue value span → c.StmtOk x) : c.StmtOk x := by
  have hknown := h.callKnown.later hf.later
  obtain ⟨stmt, s₁, s₂, hrun, hin, hout⟩ := h
  cases hrun with
  | declare =>
    obtain ⟨u, hu, hle⟩ := Checker.find?_recorded _ _ _
    exact ⟨hf.holds hout hu hle, fun v hv => (by cases hv)⟩
  | @declareValue _ declared _ _ _ typed s₃ hv hfit =>
    obtain ⟨u, hu, hle⟩ := Checker.find?_recorded _ _ _
    refine ⟨hf.holds hout hu hle, fun v heq => hf.holds hout hu (Nat.le_trans ?_ hle)⟩
    cases heq
    cases declared with
    | none => exact Nat.le_refl _
    | some type => exact hfit type rfl
  | assign ha =>
    obtain ⟨u, hu, hle⟩ := ha.storage
    exact hf.holds hout hu hle
  | returnBare => exact hret _ _ rfl
  | returnFixed => exact hret _ _ rfl
  | returnInferred => exact hret _ _ rfl
  | call _ ha =>
    obtain ⟨signature, hs, hp, -⟩ := hknown
    refine ⟨⟨signature.result, ?_⟩, ha.fits⟩
    rw [hf.signature _ _ hs, hp]
  | branch | whileLoop | forLoop | breakLoop | continueLoop | print | block | expression => trivial

mutual

theorem StmtRun.jumpsOk {stmt : Stmt} {s s' : Checker} {t : Typed.Stmt} (h : StmtRun stmt s t s') :
    t.JumpsOk s.scope.inLoop := by
  match h with
  | .declare | .declareValue _ _ | .assign _ | .returnBare _ _ _ | .returnFixed _ _ _ _ _ _
  | .returnInferred _ _ _ _ _ _ | .print _ | .expression _ | .call _ _ => trivial
  | .breakLoop hl | .continueLoop hl => exact hl
  | .branch hc hy hn =>
    have hyes := hy.jumpsOk
    have hno := hn.jumpsOk
    rw [hc.free.extends.inLoop] at hyes
    rw [Checker.withScope, hc.free.extends.inLoop] at hno
    exact ⟨hyes, hno⟩
  | .whileLoop _ hb => exact ⟨trivial, hb.jumpsOk, trivial⟩
  | .forLoop hs hc hb hp =>
    have hstep := hp.jumpsOk
    rw [Checker.withScope, hc.free.extends.inLoop, hs.free.extends.inLoop] at hstep
    exact ⟨hs.jumpsOk, hb.jumpsOk, hstep⟩
  | .block hb => exact hb.jumpsOk

theorem StmtRun?.jumpsOk {stmt : Option Stmt} {s s' : Checker} {t : Option Typed.Stmt}
    (h : StmtRun? stmt s t s') : Typed.jumpsOk? s.scope.inLoop t := by
  match h with
  | .missing => trivial
  | .present h => exact h.jumpsOk

theorem StmtsRun.jumpsOk {stmts : List Stmt} {s s' : Checker} {ts : List Typed.Stmt}
    (h : StmtsRun stmts s ts s') : Typed.jumpsOkAll s.scope.inLoop ts := by
  match h with
  | .nil => trivial
  | .cons h hs =>
    have hrest := hs.jumpsOk
    rw [h.free.extends.inLoop] at hrest
    exact ⟨h.jumpsOk, hrest⟩

end

/-- The tree of a body is sound, given that its returns are. -/
theorem StmtsRun.sound {stmts : List Stmt} {z s s' : Checker} {ts : List Typed.Stmt}
    {c : Typed.Context} (h : StmtsRun stmts s ts s') (hf : z.Frames s s' c)
    (hret : ∀ value span, .returnValue value span ∈ Typed.partsOfStmts ts →
      c.StmtOk (.returnValue value span)) : c.SoundStmts s.scope.inLoop ts := by
  refine ⟨fun x hx => (h.made.1 x hx).exprOk hf, fun x hx => ?_, h.jumpsOk⟩
  refine (h.made.2 x hx).stmtOk hf fun value span heq => ?_
  subst heq
  exact hret value span hx

theorem Passes.sound {scope : Scope} {parameters : List Typed.Parameter} {body : List Stmt}
    {readTypes : Table NumType} {s s' z : Checker} {typed : List Typed.Stmt} {c : Typed.Context}
    (h : Passes scope parameters body readTypes s typed s') (hempty : scope.bindings = .empty)
    (hloop : scope.inLoop = false) (hz : s'.Later z)
    (hst : ∀ slot, c.storage slot = s'.storage.find? slot)
    (hsig : ∀ name signature, z.signatures.find? name = some signature →
      c.signature name = some (signature.parameters, signature.result))
    (hret : ∀ value span, .returnValue value span ∈ Typed.partsOfStmts typed →
      c.StmtOk (.returnValue value span)) : c.SoundStmts false typed := by
  obtain ⟨readTypes', s₀, s₁, number, ⟨hrun⟩, hagrees, -, rfl⟩ :=
    h.final (P := fun _ => True) (fun _ _ _ _ _ _ => trivial) trivial
  have hin := s₀.entered_steps (N := fun _ => True) scope readTypes' parameters fun _ _ => trivial
  have hl := Checker.Later.trans (Checker.reported_later (by simp)) hz
  have hsound := hrun.sound (c := c) (z := z) ⟨hin.bound (Checker.bound_fresh hempty), fun slot => ?_, hst,
    ⟨hl.signatures, hl.log, hl.pins⟩, hsig⟩ hret
  · rwa [hin.extends.inLoop, show (s₀.fresh scope readTypes').scope.inLoop = false from hloop]
      at hsound
  · rw [hrun.free.extends.readTypes, hin.extends.readTypes]
    exact (Table.find?_eq_of_agrees hagrees slot).symm

/-- The body of every function is sound, and so are the top-level statements. -/
theorem ProgramRun.sound {p : Program} {options : Options} {typed : Typed.Program} {z : Checker}
    (h : ProgramRun p options typed z) :
    ∀ f ∈ typed.bodies, (f.context typed).SoundStmts false f.body := by
  have hsig : ∀ name signature, z.signatures.find? name = some signature →
      typed.signature? name = some (signature.parameters, signature.result) :=
    fun _ _ hs => h.signature?_eq hs
  intro f hf
  rw [Typed.Program.bodies, List.mem_append, List.mem_singleton] at hf
  obtain hf | rfl := hf
  · have hchecked := h.checked f hf
    obtain ⟨g, -, s, s₁, s₂, hrun, -, -, hz, -⟩ := h.each hf
    obtain @⟨body, s₃, signature, hp, hs, hr⟩ := hrun
    refine hp.sound rfl rfl ((Checker.checked_later hs).trans hz) (fun _ => rfl) hsig ?_
    rintro (_ | value) span hmem
    · exact hchecked.returnedBare span hmem
    · exact hchecked.returned value span hmem
  · obtain @⟨s, ts, s₁, body, _, -, hd, hfs, he⟩ := h
    refine he.sound rfl rfl (.refl _) (fun _ => rfl) hsig ?_
    intro value span hmem
    -- The top level is no function, so nothing returns from it.
    exfalso
    obtain ⟨readTypes, s₂, s₃, number, ⟨hrun⟩, -, -, -⟩ :=
      he.final (P := fun _ => True) (fun _ _ _ _ _ _ => trivial) trivial
    obtain _ | value := value
    · obtain ⟨-, f, hfun, -⟩ := (hrun.made.2 _ hmem).returnedBare
      cases hfun
    · obtain ⟨f, -, hfun, -⟩ := (hrun.made.2 _ hmem).returned
      cases hfun

end Numlet
