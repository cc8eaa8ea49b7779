import Numlet.Proofs.Check.Leaves
import Numlet.Proofs.Check.Passes
import Numlet.Proofs.Check.Pins
import Numlet.Proofs.Slots

/-!
What the passes over one body amount to. A body that declares and assigns nothing takes one pass; any
other body takes at least two, and from the second on every function that it calls for a value has a
settled result.
-/
namespace Numlet
open Checking

theorem Table.insert_ne_nil (t : Table NumType) (name : String) (type : NumType) :
    (t.insert name type).entries ≠ [] := by
  obtain ⟨entries⟩ := t
  cases entries with
  | nil => exact List.cons_ne_nil _ _
  | cons e rest =>
    obtain ⟨n, v⟩ := e
    change Table.insertEntry name type ((n, v) :: rest) ≠ []
    unfold Table.insertEntry
    split <;> exact List.cons_ne_nil _ _

/-- From `t` to `t'` a storage gets at most one slot for each site, and some slot if there is a site. -/
structure Table.Fills (t t' : Table NumType) (sites : Nat) : Prop where
  atMost : t'.entries.length ≤ t.entries.length + sites
  empty : t'.entries = [] → t.entries = [] ∧ sites = 0

namespace Table.Fills

variable {t t₁ t₂ t' : Table NumType} {m n : Nat}

theorem refl (t : Table NumType) : t.Fills t 0 := ⟨Nat.le_refl _, fun he => ⟨he, rfl⟩⟩

theorem insert {slot : String} {type : NumType} (h : t.Fills t' n) :
    t.Fills (t'.insert slot type) (n + 1) where
  atMost := Nat.le_trans Table.length_insert_le (Nat.succ_le_succ h.atMost)
  empty he := absurd he (Table.insert_ne_nil _ _ _)

theorem append (h₁ : t.Fills t₁ m) (h₂ : t₁.Fills t₂ n) : t.Fills t₂ (m + n) where
  atMost := by
    have hm := h₁.atMost
    have hn := h₂.atMost
    omega
  empty he := by
    obtain ⟨he₁, rfl⟩ := h₂.empty he
    exact h₁.empty he₁

theorem empty_iff (h : t.Fills t' n) : t'.entries = [] ↔ t.entries = [] ∧ n = 0 := by
  refine ⟨h.empty, ?_⟩
  rintro ⟨ht, rfl⟩
  have hle := h.atMost
  rw [ht] at hle
  exact List.eq_nil_of_length_eq_zero (Nat.le_zero.mp hle)

end Table.Fills

theorem Checker.noted_storage (s : Checker) (written : Option NumType) (type : NumType) :
    (s.noted written type).storage = s.storage := by
  obtain ⟨log, hlog⟩ := s.noted_eq written type
  rw [hlog]

mutual

theorem ExprRun.fills {e : Expr} {hint : Option NumType} {s s' : Checker} {t : Typed.Expr}
    (h : ExprRun e hint s t s') : s.storage.Fills s'.storage e.sites := by
  match h with
  | .literal | .var _ | .update _ => exact .refl _
  | .binary hl hr _ _ => exact hl.fills.append hr.fills
  | .widened hl hr hw ha _ =>
    rw [ha.of_constant (Bool.and_eq_true_iff.mp hw).2]
    exact hl.fills.append hr.fills
  | .unary h => exact h.fills
  | .assign h =>
    rw [Expr.sites, Expr.sites, Nat.zero_add]
    exact h.fills
  | .convert h =>
    rw [Checker.noted_storage]
    exact h.fills
  | .call _ h _ _ _ => exact h.fills
  | .pinningCall _ h _ _ => exact h.fills

theorem AssignRun.fills {name : String} {place : Position} {value : Expr} {s s' : Checker} {slot : String}
    {t : Typed.Expr} {type : NumType} (h : AssignRun name place value s slot t type s') :
    s.storage.Fills s'.storage (value.sites + 1) := by
  match h with
  | .bound h _ _ => exact .insert h.fills
  | .fresh h _ _ => exact .insert h.fills

theorem ArgumentsRun.fills {es : List Expr} {types : List NumType} {s s' : Checker}
    {ts : List Typed.Expr} (h : ArgumentsRun es types s ts s') :
    s.storage.Fills s'.storage (sitesOfExprs es) := by
  match h with
  | .nil => exact .refl _
  | .cons h _ hs => exact h.fills.append hs.fills

end

theorem ExprRun?.fills {e : Option Expr} {s s' : Checker} {t : Option Typed.Expr}
    (h : ExprRun? e s t s') : s.storage.Fills s'.storage (sitesOfExpr? e) := by
  cases h with
  | missing => exact .refl _
  | present h => exact h.fills

theorem sitesOfStep (step : Option Expr) :
    sitesOfStmt? (step.map Stmt.ofExpr) = sitesOfExpr? step := by
  cases step with
  | none => rfl
  | some e => cases e <;> rfl

mutual

theorem StmtRun.fills {stmt : Stmt} {s s' : Checker} {t : Typed.Stmt} (h : StmtRun stmt s t s') :
    s.storage.Fills s'.storage stmt.sites := by
  match h with
  | .declare => exact .insert (.refl _)
  | .declareValue h _ => exact .insert h.fills
  | .breakLoop _ | .continueLoop _ | .returnBare _ _ _ => exact .refl _
  | .assign ha =>
    rw [Stmt.sites, Expr.sites, Nat.zero_add]
    exact ha.fills
  | .branch hc hy hn => exact (hc.fills.append hy.fills).append hn.fills
  | .whileLoop hc hb => exact hc.fills.append hb.fills
  | .forLoop hs hc hb hp =>
    have hall := ((hs.fills.append hc.fills).append hb.fills).append hp.fills
    rw [sitesOfStep, Nat.add_right_comm] at hall
    exact hall
  | .returnFixed _ _ hv _ _ _ => exact hv.fills
  | .returnInferred _ _ hv _ _ _ => exact hv.fills
  | .print hv => exact hv.fills
  | .block hb => exact hb.fills
  | .expression hv => exact hv.fills
  | .call _ ha => exact ha.fills

theorem StmtRun?.fills {stmt : Option Stmt} {s s' : Checker} {t : Option Typed.Stmt}
    (h : StmtRun? stmt s t s') : s.storage.Fills s'.storage (sitesOfStmt? stmt) := by
  match h with
  | .missing => exact .refl _
  | .present h => exact h.fills

theorem StmtsRun.fills {stmts : List Stmt} {s s' : Checker} {ts : List Typed.Stmt}
    (h : StmtsRun stmts s ts s') : s.storage.Fills s'.storage (sitesOfStmts stmts) := by
  match h with
  | .nil => exact .refl _
  | .cons h hs => exact h.fills.append hs.fills

end

section Entered

variable {N : String → Prop}

theorem Checker.declared_steps (ps : List Typed.Parameter) (hn : ∀ p ∈ ps, N p.name) (s : Checker) :
    Steps N s (ps.foldl (fun s p => s.declared p.name p.type true) s) := by
  induction ps generalizing s with
  | nil => exact .refl
  | cons p ps ih =>
    rw [List.forall_mem_cons] at hn
    exact .head (.declare hn.1) (ih hn.2 _)

theorem Checker.entered_steps (s : Checker) (scope : Scope) (readTypes : Table NumType)
    (ps : List Typed.Parameter) (hn : ∀ p ∈ ps, N p.name) :
    Steps N (s.fresh scope readTypes) (s.entered scope readTypes ps) :=
  declared_steps ps hn _

theorem Checker.declared_fills (ps : List Typed.Parameter) (s : Checker) :
    s.storage.Fills (ps.foldl (fun s p => s.declared p.name p.type true) s).storage ps.length := by
  induction ps generalizing s with
  | nil => exact .refl _
  | cons p ps ih =>
    have hp : s.storage.Fills (s.declared p.name p.type true).storage 1 := .insert (.refl _)
    rw [List.length_cons, Nat.add_comm]
    exact hp.append (ih _)

theorem Checker.pinned_of_declared (ps : List Typed.Parameter) (s : Checker) (f : String)
    (t : NumType)
    (h : .resultPinned f t ∈ (ps.foldl (fun s p => s.declared p.name p.type true) s).log) :
    .resultPinned f t ∈ s.log := by
  induction ps generalizing s with
  | nil => exact h
  | cons p ps ih =>
    have hd : .resultPinned f t ∈ (s.declared p.name p.type true).log := ih _ h
    exact pinned_of_recorded f t hd

end Entered

section Passes

variable {scope : Scope} {parameters : List Typed.Parameter} {body : List Stmt}
  {readTypes : Table NumType} {s s' z : Checker} {typed : List Typed.Stmt}

theorem PassRun.fills (h : PassRun scope parameters body readTypes s typed s') :
    Table.empty.Fills s'.storage (parameters.length + sitesOfStmts body) := by
  obtain ⟨h⟩ := h
  exact (Checker.declared_fills parameters (s.fresh scope readTypes)).append h.fills

theorem PassRun.empty_iff (h : PassRun scope parameters body readTypes s typed s') :
    s'.storage.entries = [] ↔ parameters.length + sitesOfStmts body = 0 :=
  h.fills.empty_iff.trans ⟨And.right, fun h => ⟨rfl, h⟩⟩

theorem Passes.empty_iff (h : Passes scope parameters body readTypes s typed s') :
    s'.storage.entries = [] ↔ parameters.length + sitesOfStmts body = 0 := by
  induction h with
  | last h _ => exact h.empty_iff
  | again _ _ _ ih => exact ih

/-- From before the parameters to the end of a pass. -/
theorem PassRun.advance (h : PassRun scope parameters body readTypes s typed s') :
    Advance (fun _ => True) (s.fresh scope readTypes) (s'.withScope scope) := by
  obtain ⟨h⟩ := h
  have hall := (Advance.steps (s.entered_steps scope readTypes parameters fun _ _ => trivial)).trans
    h.free
  exact hall.copied

theorem PassRun.signatures_grow (h : PassRun scope parameters body readTypes s typed s') :
    s.signatures.Grows s'.signatures := h.advance.extends.signatures

theorem PassRun.unfinished (h : PassRun scope parameters body readTypes s typed s')
    (hu : (s.withScope scope).Unfinished) : (s'.withScope scope).Unfinished :=
  Checker.Unfinished.of_extends (s := s.fresh scope readTypes) hu h.advance.extends

theorem PassRun.later (h : PassRun scope parameters body readTypes s typed s')
    (hu : (s.withScope scope).Unfinished) : s.Later s' := by
  have hl := h.advance.later (s := s.fresh scope readTypes) hu
  exact ⟨hl.signatures, hl.log, hl.pins⟩

theorem Passes.signatures_grow (h : Passes scope parameters body readTypes s typed s') :
    s.signatures.Grows s'.signatures := by
  induction h with
  | last h _ => exact h.signatures_grow
  | again h _ _ ih => exact h.signatures_grow.trans ih

theorem Passes.later (h : Passes scope parameters body readTypes s typed s')
    (hu : (s.withScope scope).Unfinished) : s.Later s' := by
  induction h with
  | last h _ => exact (h.later hu).trans (Checker.reported_later (by simp))
  | again h _ _ ih => exact (h.later hu).trans (ih (h.unfinished hu))

theorem PassRun.pinsIn (h : PassRun scope parameters body readTypes s typed s') :
    s.PinsIn s' (Typed.exprsOfStmts typed) := by
  obtain ⟨h⟩ := h
  intro f t ht
  refine (h.pinsIn f t ht).imp_left fun ht => ?_
  exact Checker.pinned_of_declared parameters (s.fresh scope readTypes) f t ht

theorem PassRun.pinsHold (h : PassRun scope parameters body readTypes s typed s') {f : String}
    {E : NumType → Prop} (hE : ∀ u, Typed.ReturnsCall f u (Typed.partsOfStmts typed) → E u)
    (hp : s.PinsHold f E) : s'.PinsHold f E := by
  obtain ⟨h⟩ := h
  apply h.pinsHold hE
  apply (s.entered_steps (N := fun _ => True) scope readTypes parameters fun _ _ => trivial).pinsHold
  exact hp

/-- After a pass every function that the body calls for a value has a settled result, so that of the
function itself is fixed. -/
theorem PassRun.fixes (h : PassRun scope parameters body readTypes s typed s')
    (hu : (s.withScope scope).Unfinished) {f : String} (hf : scope.function = some f)
    (hc : f ∈ calleesOfStmts body) : s'.Fixes f := by
  have hu' := h.unfinished hu
  obtain ⟨h⟩ := h
  rw [← h.leaves.callees, List.mem_filterMap] at hc
  obtain ⟨x, hx, hcallee⟩ := hc
  have hknown := (h.made.1 x hx).callKnown
  cases x with
  | call callee arguments parameterTypes callSpan type span =>
    cases hcallee
    obtain ⟨signature, hs, -, -, hset, -⟩ := hknown
    have hunchecked : signature.checked = false := hu' _ _ hf hs
    rw [Signature.settled, hunchecked, Bool.or_false] at hset
    exact ⟨signature, hs, hset⟩
  | literal | var | binary | unary | update | assign | convert => cases hcallee

/-- In a pass that finds the results of its calls settled, they stay what they are. -/
theorem PassRun.callsSettled_of_fixes (h : PassRun scope parameters body readTypes s typed s')
    (hu : (s.withScope scope).Unfinished) (hz : s'.Later z)
    (hp : ∀ f, scope.function = some f → s.PinsFix f)
    (hfix : ∀ f, scope.function = some f → f ∈ calleesOfStmts body → s.Fixes f) :
    ∀ x ∈ Typed.exprsOfStmts typed, x.CallSettled z.signatures := by
  have hpins := h.pinsIn
  have hadvance := h.advance
  obtain ⟨h⟩ := h
  have hin := s.entered_steps (N := fun _ => True) scope readTypes parameters fun _ _ => trivial
  apply h.callsSettled
  refine ⟨Checker.Unfinished.of_extends (s := s.fresh scope readTypes) hu hin.extends,
    ⟨hz.signatures, hz.log, hz.pins⟩, fun f hf => ?_⟩
  have hfun : scope.function = some f := hin.extends.function.symm.trans hf
  by_cases hfixed : s.Fixes f
  · exact .inl (Checker.Fixes.of_grows (s := s.fresh scope readTypes) hfixed hin.extends.signatures)
  · -- A result that this pass fixes would have been pinned by a call in the body.
    refine .inr (.inl fun hend => hfixed ?_)
    obtain ⟨t, ht⟩ := hadvance.pinned (f := f) hfixed hend
    obtain ht | ⟨x, hx, hcall⟩ := hpins f t ht
    · exact hp f hfun t ht
    · apply hfix f hfun
      rw [← h.leaves.callees, List.mem_filterMap]
      refine ⟨x, hx, ?_⟩
      cases x with
      | call =>
        rw [← hcall.1]
        rfl
      | literal | var | binary | unary | update | assign | convert => cases hcall

theorem PassRun.pinsFix (h : PassRun scope parameters body readTypes s typed s') {f : String}
    (hp : s.PinsFix f) : s'.PinsFix f :=
  h.advance.pinsFix (s := s.fresh scope readTypes) hp

theorem Passes.callsSettled_of_fixes (h : Passes scope parameters body readTypes s typed s')
    (hu : (s.withScope scope).Unfinished) (hz : s'.Later z)
    (hp : ∀ f, scope.function = some f → s.PinsFix f)
    (hfix : ∀ f, scope.function = some f → f ∈ calleesOfStmts body → s.Fixes f) :
    ∀ x ∈ Typed.exprsOfStmts typed, x.CallSettled z.signatures := by
  induction h with
  | last h _ =>
    exact h.callsSettled_of_fixes hu ((Checker.reported_later (by simp)).trans hz) hp hfix
  | again h _ _ ih =>
    refine ih (h.unfinished hu) hz (fun f hf => h.pinsFix (hp f hf)) (fun f hf hc => ?_)
    exact (hfix f hf hc).of_grows h.signatures_grow

/-- The calls of a body have the results that their callees have in the end, provided that a body of a
single pass has not pinned the result of its own function to something else. -/
theorem Passes.callsSettled (h : Passes scope parameters body .empty s typed s')
    (hu : (s.withScope scope).Unfinished) (hz : s'.Later z)
    (hp : ∀ f, scope.function = some f → s.PinsFix f)
    (hsingle : ∀ f, scope.function = some f → s'.storage.entries = [] → ∀ t,
      .resultPinned f t ∈ s'.log →
        ∃ signature, z.signatures.find? f = some signature ∧ signature.result = some t) :
    ∀ x ∈ Typed.exprsOfStmts typed, x.CallSettled z.signatures := by
  cases h with
  | @last _ _ _ s₁ number h ha =>
    have hempty : s₁.storage.entries = [] :=
      Table.entries_eq_nil_iff.mpr fun name => Table.find?_eq_of_agrees ha name
    have hz' := (Checker.reported_later (s := s₁) (by simp)).trans hz
    obtain ⟨h⟩ := h
    have hin := s.entered_steps (N := fun _ => True) scope .empty parameters fun _ _ => trivial
    apply h.callsSettled
    refine ⟨Checker.Unfinished.of_extends (s := s.fresh scope .empty) hu hin.extends,
      ⟨hz'.signatures, hz'.log, hz'.pins⟩, fun f hf => .inr (.inr fun t ht => ?_)⟩
    exact hsingle f (hin.extends.function.symm.trans hf) hempty t (Array.mem_push_of_mem _ ht)
  | again h ha hs =>
    exact hs.callsSettled_of_fixes (h.unfinished hu) hz (fun f hf => h.pinsFix (hp f hf))
      (fun f hf hc => h.fixes hu hf hc)

end Passes

end Numlet
