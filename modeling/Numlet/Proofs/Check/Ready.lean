import Numlet.Proofs.Check.Stores
import Numlet.Proofs.Typed.Paths

/-!
What a path has done to the locals that are in sight. A name is bound where it is declared, and a path
that goes on from there has stored into its slot. Only a name that is declared by an assignment in the right
operand of `&&` or `||` is bound on paths that have passed the operand over.
-/
namespace Numlet
open Checking Typed

/-- On a path that has done `done` a local has a value: it is a parameter, something was stored into it, or,
where assignments may declare, an operand with a store into it has been passed over. -/
def Ready (auto : Bool) (parameters : List String) (done : List Access) (slot : String) : Prop :=
  slot ∈ parameters ∨ .store slot ∈ done ∨
    (auto = true ∧ ∃ operand, .skip operand ∈ done ∧ slot ∈ operand.stores.map Prod.fst)

/-- After `done`, every read of a path finds its local ready. -/
def ReadsReady (auto : Bool) (parameters : List String) (done path : List Access) : Prop :=
  ∀ before slot after, path = before ++ .read slot :: after →
    Ready auto parameters (done ++ before) slot

/-- After `done`, all locals in sight are ready. -/
def Checker.Ready (s : Checker) (parameters : List String) (done : List Access) : Prop :=
  ∀ name v, s.scope.find? name = some v →
    Numlet.Ready s.options.autoDeclare parameters done v.slot

section Lists

variable {auto : Bool} {parameters : List String} {done as bs : List Access} {slot : String}

theorem Ready.append (h : Ready auto parameters done slot) (as : List Access) :
    Ready auto parameters (done ++ as) slot := by
  obtain h | h | ⟨ha, operand, hskip, hstore⟩ := h
  · exact .inl h
  · exact .inr (.inl (List.mem_append_left _ h))
  · exact .inr (.inr ⟨ha, operand, List.mem_append_left _ hskip, hstore⟩)

theorem Ready.of_store (h : .store slot ∈ as) : Ready auto parameters (done ++ as) slot :=
  .inr (.inl (List.mem_append_right _ h))

namespace ReadsReady

/-- A path that reads nothing. -/
theorem of_not_mem (h : ∀ slot, .read slot ∉ as) : ReadsReady auto parameters done as := by
  rintro before slot after rfl
  exact absurd (List.mem_append_right _ List.mem_cons_self) (h slot)

theorem read (h : Ready auto parameters done slot) : ReadsReady auto parameters done [.read slot] := by
  intro before other after heq
  cases before with
  | nil =>
    cases heq
    rwa [List.append_nil]
  | cons b before => cases before <;> cases heq

theorem append (h₁ : ReadsReady auto parameters done as)
    (h₂ : ReadsReady auto parameters (done ++ as) bs) : ReadsReady auto parameters done (as ++ bs) := by
  intro before slot after heq
  obtain ⟨middle, rfl, hbs⟩ | ⟨middle, has, hrest⟩ := List.append_eq_append_iff.mp heq
  · rw [← List.append_assoc]
    exact h₂ middle slot after hbs
  · cases middle with
    | nil =>
      have hready := h₂ [] slot after hrest.symm
      rwa [List.append_nil, has, List.append_nil] at hready
    | cons a middle =>
      cases hrest
      exact h₁ before slot middle has

end ReadsReady

end Lists

/-- The same names are in sight, and the same options hold. -/
structure Checker.SameSight (s r : Checker) : Prop where
  bindings : s.scope.bindings = r.scope.bindings
  options : s.options = r.options

namespace Checker.Ready

variable {s s' : Checker} {parameters : List String} {done as : List Access}

theorem append (h : s.Ready parameters done) (as : List Access) : s.Ready parameters (done ++ as) :=
  fun name v hv => (h name v hv).append as

theorem of_sameSight (h : s.Ready parameters done) (hs : s'.SameSight s) :
    s'.Ready parameters done := by
  intro name v hv
  rw [hs.options]
  refine h name v ?_
  unfold Scope.find? at hv ⊢
  rwa [← hs.bindings]

theorem assigned (h : s.Ready parameters done) {name : String} {v : Variable}
    (hv : s.scope.find? name = some v) (type : NumType) :
    (s.assigned name v.slot type).Ready parameters done := by
  intro other w hw
  change (s.scope.retype name type).find? other = some w at hw
  rw [Scope.find?_retype hv] at hw
  split at hw
  · cases hw
    exact h name v hv
  · exact h other w hw

/-- A new local is ready once something has been stored into it. -/
theorem declared (h : s.Ready parameters done) {name : String} {type : NumType} {fixed : Bool}
    (hstore : Numlet.Ready s.options.autoDeclare parameters done (s.nextSlot name)) :
    (s.declared name type fixed).Ready parameters done := by
  intro other w hw
  change (s.scope.declare name _ type fixed).find? other = some w at hw
  rw [Scope.find?_declare] at hw
  split at hw
  · cases hw
    exact hstore
  · exact h other w hw

end Checker.Ready

section Expressions

/-- What an expression binds has the slot of one of its assignments. -/
def BindsStored (s s' : Checker) (stores : List (String × NumType)) : Prop :=
  ∀ name v, s'.scope.find? name = some v →
    (∃ w, s.scope.find? name = some w ∧ w.slot = v.slot) ∨
      (s.options.autoDeclare = true ∧ v.slot ∈ stores.map Prod.fst)

theorem BindsStored.refl (s : Checker) (stores : List (String × NumType)) : BindsStored s s stores :=
  fun _ v hv => .inl ⟨v, hv, rfl⟩

theorem BindsStored.trans {s s₁ s₂ : Checker} {as bs : List (String × NumType)}
    (h₁ : BindsStored s s₁ as) (ho : s₁.options = s.options) (h₂ : BindsStored s₁ s₂ bs) :
    BindsStored s s₂ (as ++ bs) := by
  intro name v hv
  rw [List.map_append, List.mem_append]
  obtain ⟨w, hw, heq⟩ | ⟨ha, hm⟩ := h₂ name v hv
  · obtain ⟨u, hu, heq'⟩ | ⟨ha, hm⟩ := h₁ name w hw
    · exact .inl ⟨u, hu, heq'.trans heq⟩
    · exact .inr ⟨ha, .inl (heq ▸ hm)⟩
  · exact .inr ⟨ho ▸ ha, .inr hm⟩

mutual

theorem ExprRun.bindsStored {e : Expr} {hint : Option NumType} {s s' : Checker} {t : Typed.Expr}
    (h : ExprRun e hint s t s') : BindsStored s s' t.stores := by
  match h with
  | .literal | .var _ | .update _ => exact .refl _ _
  | .binary hl hr _ _ => exact hl.bindsStored.trans hl.free.extends.options hr.bindsStored
  | .widened hl hr hw ha _ =>
    have hc := (Bool.and_eq_true_iff.mp hw).2
    have hfirst := hl.of_constant hc
    subst hfirst
    rw [ha.of_constant hc, Typed.Expr.stores, ha.stores_of_constant hc]
    exact hr.bindsStored
  | .unary h => exact h.bindsStored
  | .assign h => exact h.bindsStored
  | @ExprRun.convert _ written _ _ _ _ typed s₁ h =>
    obtain ⟨log, hlog⟩ := s₁.noted_eq written typed.type
    rw [hlog]
    exact h.bindsStored
  | .call _ h _ _ _ => exact h.bindsStored
  | .pinningCall _ h _ _ => exact h.bindsStored

theorem AssignRun.bindsStored {name : String} {place : Position} {value : Expr} {s s' : Checker}
    {slot : String} {t : Typed.Expr} {type : NumType} (h : AssignRun name place value s slot t type s') :
    BindsStored s s' (t.stores ++ [(slot, t.type)]) := by
  match h with
  | @AssignRun.bound _ _ _ _ _ s₁ v _ h hv _ =>
    refine h.bindsStored.trans h.free.extends.options fun other w hw => .inl ?_
    change (s₁.scope.retype name type).find? other = some w at hw
    rw [Scope.find?_retype hv] at hw
    split at hw
    · next heq =>
      cases hw
      exact ⟨v, heq ▸ hv, rfl⟩
    · exact ⟨w, hw, rfl⟩
  | @AssignRun.fresh _ _ _ _ _ s₁ h hv ha =>
    refine h.bindsStored.trans h.free.extends.options fun other w hw => ?_
    change (s₁.scope.declare name _ t.type false).find? other = some w at hw
    rw [Scope.find?_declare] at hw
    split at hw
    · cases hw
      exact .inr ⟨ha, List.mem_cons_self⟩
    · exact .inl ⟨w, hw, rfl⟩

theorem ArgumentsRun.bindsStored {es : List Expr} {types : List NumType} {s s' : Checker}
    {ts : List Typed.Expr} (h : ArgumentsRun es types s ts s') :
    BindsStored s s' (storesOfExprs ts) := by
  match h with
  | .nil => exact .refl _ _
  | .cons h _ hs => exact h.bindsStored.trans h.free.extends.options hs.bindsStored

end

variable {parameters : List String}

/-- Where an operand has been passed over, all that it would have bound is ready. -/
theorem Checker.Ready.skipped {s s' : Checker} {done : List Access} (h : s.Ready parameters done)
    {operand : Typed.Expr} (hb : BindsStored s s' operand.stores) (ho : s'.options = s.options) :
    s'.Ready parameters (done ++ [.skip operand]) := by
  intro name v hv
  rw [ho]
  obtain ⟨w, hw, heq⟩ | ⟨ha, hm⟩ := hb name v hv
  · exact heq ▸ (h name w hw).append _
  · exact .inr (.inr ⟨ha, operand, by simp, hm⟩)

theorem ExprRun.no_read_of_constant {e : Expr} {hint : Option NumType} {s s' : Checker}
    {t : Typed.Expr} (h : ExprRun e hint s t s') (hc : e.isConstant = true) {path : List Access}
    (hp : ExprPath t path) : ∀ slot, .read slot ∉ path := by
  cases h with
  | literal =>
    cases hp
    simp
  | unary h =>
    cases hp with
    | unary hp => exact h.no_read_of_constant hc hp
  | binary hl hr | widened _ hr _ hl =>
    simp only [Expr.isConstant, Bool.and_eq_true] at hc
    intro slot
    cases hp with
    | binary hpl hpr =>
      rw [List.mem_append, not_or]
      exact ⟨hl.no_read_of_constant hc.1 hpl slot, hr.no_read_of_constant hc.2 hpr slot⟩
    | shortcut _ hpl =>
      rw [List.mem_append, not_or]
      exact ⟨hl.no_read_of_constant hc.1 hpl slot, by simp⟩
  | var | update | assign | convert | call | pinningCall => cases hc

/-- A path on which every read finds its local ready, if the locals of `s` are ready before it. If it falls
through, the locals of `s'` are ready after it. -/
def Leads (parameters : List String) (s s' : Checker) (path : List Access) (x : Exit) : Prop :=
  ∀ done, s.Ready parameters done →
    ReadsReady s.options.autoDeclare parameters done path ∧
      (x = .falls → s'.Ready parameters (done ++ path))

namespace Leads

variable {s s₁ s₂ : Checker} {as bs : List Access} {x : Exit}

/-- A path that reads nothing and binds nothing. -/
theorem of_not_mem (h : ∀ slot, .read slot ∉ as) : Leads parameters s s as x :=
  fun _ hs => ⟨.of_not_mem h, fun _ => hs.append as⟩

theorem nil : Leads parameters s s [] x := of_not_mem (by simp)

theorem read {name : String} {v : Variable} (hv : s.scope.find? name = some v) :
    Leads parameters s s [.read v.slot] x :=
  fun _ hs => ⟨.read (hs name v hv), fun _ => hs.append _⟩

theorem declare {name : String} {type : NumType} {fixed : Bool} :
    Leads parameters s (s.declared name type fixed) [.store (s.nextSlot name)] x :=
  fun _ hs => ⟨.of_not_mem (by simp), fun _ => (hs.append _).declared (.of_store List.mem_cons_self)⟩

theorem trans (h₁ : Leads parameters s s₁ as .falls) (ho : s₁.options = s.options)
    (h₂ : Leads parameters s₁ s₂ bs x) : Leads parameters s s₂ (as ++ bs) x := by
  intro done hs
  obtain ⟨hreads, hmiddle⟩ := h₁ done hs
  obtain ⟨hreads', hend⟩ := h₂ _ (hmiddle rfl)
  rw [ho] at hreads'
  rw [← List.append_assoc]
  exact ⟨hreads.append hreads', hend⟩

/-- Nothing follows a path that does not fall through. -/
theorem leave (h : Leads parameters s s₁ as x) (hx : x ≠ .falls) : Leads parameters s s₂ as x :=
  fun done hs => ⟨(h done hs).1, fun heq => absurd heq hx⟩

/-- A part that works in a copy of the names in sight. These are ready at its end, however it ends. -/
theorem copied {r r' : Checker} (h : Leads parameters r r' as x) (hr : r.SameSight s)
    (hs : s₂.SameSight s) (y : Exit) : Leads parameters s s₂ as y := by
  intro done hready
  refine ⟨?_, fun _ => (hready.append as).of_sameSight hs⟩
  rw [← hr.options]
  exact (h done (hready.of_sameSight hr)).1

end Leads

mutual

theorem ExprRun.leads {e : Expr} {hint : Option NumType} {s s' : Checker} {t : Typed.Expr}
    (h : ExprRun e hint s t s') {path : List Access} (hp : ExprPath t path) :
    Leads parameters s s' path .falls := by
  match h with
  | .literal =>
    cases hp
    exact .nil
  | .var hv =>
    cases hp
    exact .read hv
  | .update hv =>
    cases hp
    have hstore (slot : String) : Leads parameters s s [.store slot] .falls := .of_not_mem (by simp)
    exact (Leads.read hv).trans rfl (hstore _)
  | .binary hl hr _ _ =>
    have ho := hl.free.extends.options
    cases hp with
    | binary hpl hpr => exact (hl.leads hpl).trans ho (hr.leads hpr)
    | shortcut _ hpl =>
      refine (hl.leads hpl).trans ho fun done hs => ⟨.of_not_mem (by simp), fun _ => ?_⟩
      exact hs.skipped hr.bindsStored hr.free.extends.options
  | .widened hl hr hw ha _ =>
    -- The constant on the left reads no local, either time.
    have hc := (Bool.and_eq_true_iff.mp hw).2
    have hfirst := hl.of_constant hc
    subst hfirst
    rw [ha.of_constant hc]
    cases hp with
    | binary hpl hpr =>
      exact (Leads.of_not_mem (ha.no_read_of_constant hc hpl)).trans rfl (hr.leads hpr)
    | shortcut ho _ => simp [BinaryOp.widens, ho] at hw
  | .unary h =>
    cases hp with
    | unary hp => exact h.leads hp
  | .assign h =>
    cases hp with
    | assign hp => exact h.leads hp
  | @ExprRun.convert _ written _ _ _ _ typed s₁ h =>
    cases hp with
    | convert hp =>
      obtain ⟨log, hlog⟩ := s₁.noted_eq written typed.type
      rw [hlog]
      exact h.leads hp
  | .call _ h _ _ _ =>
    cases hp with
    | call hp => exact h.leads hp
  | .pinningCall _ h _ _ =>
    cases hp with
    | call hp => exact h.leads hp

theorem AssignRun.leads {name : String} {place : Position} {value : Expr} {s s' : Checker} {slot : String}
    {t : Typed.Expr} {type : NumType} (h : AssignRun name place value s slot t type s') {path : List Access}
    (hp : ExprPath t path) : Leads parameters s s' (path ++ [.store slot]) .falls := by
  match h with
  | .bound h hv _ =>
    refine (h.leads hp).trans h.free.extends.options fun done hs => ⟨.of_not_mem (by simp), fun _ => ?_⟩
    exact (hs.append _).assigned hv _
  | .fresh h _ _ => exact (h.leads hp).trans h.free.extends.options .declare

theorem ArgumentsRun.leads {es : List Expr} {types : List NumType} {s s' : Checker}
    {ts : List Typed.Expr} (h : ArgumentsRun es types s ts s') {path : List Access}
    (hp : ExprsPath ts path) : Leads parameters s s' path .falls := by
  match h with
  | .nil =>
    cases hp
    exact .nil
  | .cons h _ hs =>
    cases hp with
    | cons hp hps => exact (h.leads hp).trans h.free.extends.options (hs.leads hps)

end

theorem ExprRun?.leads {e : Option Expr} {s s' : Checker} {t : Option Typed.Expr}
    (h : ExprRun? e s t s') {path : List Access} (hp : ExprPath? t path) :
    Leads parameters s s' path .falls := by
  cases h with
  | missing =>
    cases hp
    exact .nil
  | present h =>
    cases hp with
    | present hp => exact h.leads hp

end Expressions

section Statements

variable {parameters : List String}

/-- The rounds of a loop whose test leads from `s` to `s₁`, while its body and its step work in copies of
the names in sight after the test. Each round starts from what was ready before the first. -/
theorem Typed.Rounds.leads {s s₁ : Checker} {condition : Option Typed.Expr} {body : Typed.Stmt}
    {step : Option Typed.Stmt} (ho : s₁.options = s.options)
    (htest : ∀ {as}, ExprPath? condition as → Leads parameters s s₁ as .falls)
    (hbody : ∀ {bs x}, StmtPath body bs x → ∀ y, Leads parameters s₁ s₁ bs y)
    (hstep : ∀ {cs x}, StmtPath? step cs x → ∀ y, Leads parameters s₁ s₁ cs y)
    {path : List Access} {x : Exit} (h : Rounds condition body step path x) :
    Leads parameters s s₁ path x := by
  match h with
  | .stop =>
    have hnil : Leads parameters s s [] .stops := .nil
    exact hnil.leave (by simp)
  | .done hc => exact htest (.present hc)
  | .breaks hc hb => exact (htest hc).trans ho (hbody hb _)
  | .leave hc hb _ => exact (htest hc).trans ho (hbody hb _)
  | .stepOut hc hb _ hs _ => exact ((htest hc).trans ho (hbody hb _)).trans ho (hstep hs _)
  | .round hc hb _ hs h =>
    have hround := ((htest hc).trans ho (hbody hb _)).trans ho (hstep hs .falls)
    have hback : Leads parameters s s _ .falls := hround.copied ⟨rfl, rfl⟩ ⟨rfl, rfl⟩ .falls
    exact hback.trans rfl (h.leads ho htest hbody hstep)

mutual

theorem StmtRun.leads {stmt : Stmt} {s s' : Checker} {t : Typed.Stmt} (h : StmtRun stmt s t s')
    {path : List Access} {x : Exit} (hp : StmtPath t path x) : Leads parameters s s' path x := by
  match h with
  | .declare =>
    cases hp with
    | declare hv =>
      cases hv
      exact .declare
  | .declareValue h _ =>
    cases hp with
    | declare hv =>
      cases hv with
      | present hv => exact (h.leads hv).trans h.free.extends.options .declare
  | .assign h =>
    cases hp with
    | assign hv => exact h.leads hv
  | @StmtRun.branch _ _ _ _ _ _ s₁ _ s₂ _ s₃ hc hy hn =>
    have ho := hc.free.extends.options
    have hyes : (s₂.withScope s₁.scope).SameSight s₁ := ⟨rfl, hy.free.extends.options⟩
    have hend : (s₃.withScope s₁.scope).SameSight s₁ :=
      ⟨rfl, hn.free.extends.options.trans hyes.options⟩
    cases hp with
    | yes hpc hp => exact (hc.leads hpc).trans ho ((hy.leads hp).copied ⟨rfl, rfl⟩ hend x)
    | no hpc hp => exact (hc.leads hpc).trans ho ((hn.leads hp).copied hyes hend x)
  | @StmtRun.whileLoop _ _ _ _ _ s₁ _ s₂ hc hb =>
    have ho := hc.free.extends.options
    have hend : (s₂.withScope s₁.scope).SameSight s₁ := ⟨rfl, hb.free.extends.options⟩
    cases hp with
    | start h hx =>
      cases h
      exact absurd rfl hx
    | loop hstart h =>
      cases hstart
      have hrounds : Leads parameters s s₁ _ x := h.leads ho
        (fun hp => by
          cases hp with
          | present hp => exact hc.leads hp)
        (fun hp y => (hb.leads hp).copied ⟨rfl, rfl⟩ ⟨rfl, rfl⟩ y)
        (fun hp y => by
          cases hp
          exact .nil)
      exact fun done hs => ⟨(hrounds done hs).1, fun hx => ((hrounds done hs).2 hx).of_sameSight hend⟩
  | @StmtRun.forLoop _ _ _ _ _ _ _ s₁ _ s₂ _ s₃ _ s₄ hs hc hb hst =>
    have hfirst := hs.free.extends.options
    have htest := hc.free.extends.options
    have hbody : (s₃.withScope s₂.scope).SameSight s₂ := ⟨rfl, hb.free.extends.options⟩
    have hend : (s₄.withScope s.scope).SameSight s :=
      ⟨rfl, hst.free.extends.options.trans (hbody.options.trans (htest.trans hfirst))⟩
    cases hp with
    | start h hx => exact (hs.leads h).copied ⟨rfl, rfl⟩ hend x
    | loop hstart h =>
      have hrounds : Leads parameters s₁ s₂ _ x := h.leads htest hc.leads
        (fun hp y => (hb.leads hp).copied ⟨rfl, rfl⟩ ⟨rfl, rfl⟩ y)
        (fun hp y => (hst.leads hp).copied hbody ⟨rfl, rfl⟩ y)
      exact ((hs.leads hstart).trans hfirst hrounds).copied ⟨rfl, rfl⟩ hend x
  | .breakLoop _ | .continueLoop _ =>
    cases hp
    exact .nil
  | .returnBare _ _ _ =>
    cases hp with
    | returnValue hv =>
      cases hv
      have hnil : Leads parameters s s [] .returns := .nil
      exact hnil.leave (by simp)
  | .returnFixed _ _ h _ _ _ | .returnInferred _ _ h _ _ _ =>
    cases hp with
    | returnValue hv =>
      cases hv with
      | present hv => exact (fun done hs => ⟨(h.leads hv done hs).1, fun hx => (by cases hx)⟩)
  | .print h =>
    cases hp with
    | print hv => exact h.leads hv
  | @StmtRun.block _ _ _ _ s₁ h =>
    have hend : (s₁.withScope s.scope).SameSight s := ⟨rfl, h.free.extends.options⟩
    cases hp with
    | block hp => exact (h.leads hp).copied ⟨rfl, rfl⟩ hend x
  | .expression h =>
    cases hp with
    | expression hv => exact h.leads hv
  | .call _ h =>
    cases hp with
    | call hv => exact h.leads hv

theorem StmtRun?.leads {stmt : Option Stmt} {s s' : Checker} {t : Option Typed.Stmt}
    (h : StmtRun? stmt s t s') {path : List Access} {x : Exit} (hp : StmtPath? t path x) :
    Leads parameters s s' path x := by
  match h with
  | .missing =>
    cases hp
    exact .nil
  | .present h =>
    cases hp with
    | present hp => exact h.leads hp

theorem StmtsRun.leads {stmts : List Stmt} {s s' : Checker} {ts : List Typed.Stmt}
    (h : StmtsRun stmts s ts s') {path : List Access} {x : Exit} (hp : StmtsPath ts path x) :
    Leads parameters s s' path x := by
  match h with
  | .nil =>
    cases hp
    exact .nil
  | .cons h hs =>
    cases hp with
    | leave hp hx => exact (h.leads hp).leave hx
    | cons hp hps => exact (h.leads hp).trans h.free.extends.options (hs.leads hps)

end

end Statements

end Numlet
