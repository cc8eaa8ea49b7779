import Numlet.Proofs.Check.CoupledBodies
import Numlet.Proofs.Check.Frame
import Numlet.Proofs.Check.Programs

/-!
Functions checked one by one. Where every function whose value is used has a declared result, the check of one
changes nothing that another looks at, so each is checked as if it were the first.
-/
namespace Numlet
open Checking

/-- A state without what is left from the body checked last. -/
def Checker.cleared (s : Checker) : Checker :=
  { s with
    storage := .empty, readTypes := .empty, declarations := .empty
    bareReturn := false, valuedReturn := false }

/-- A function starts from nothing. -/
theorem checkFunction_cleared (f : Function) (s : Checker) :
    checkFunction f s.cleared = checkFunction f s := rfl

theorem checkEntry_cleared (body : List Stmt) (span : Span) (s : Checker) :
    checkEntry body span s.cleared = checkEntry body span s := rfl

/-- No check changes the result of a function of this name, if there is one. -/
def Checker.FixedFor (s : Checker) (name : String) : Prop :=
  ∀ signature, s.signatures.find? name = some signature → signature.resultFixed = true

/-- `s` knows as much as `declared` of parameters, of fixed results and of the functions that still wait. -/
structure Checker.AsDeclared (declared : Checker) (waiting : String → Prop) (s : Checker) : Prop where
  options : s.options = declared.options
  scope : s.scope = declared.scope
  parameters : ∀ name,
    (s.signatures.find? name).map (·.parameters) = (declared.signatures.find? name).map (·.parameters)
  fixed : ∀ name signature signature', declared.FixedFor name →
    declared.signatures.find? name = some signature → s.signatures.find? name = some signature' →
    signature.Agrees signature'
  waiting : ∀ name, waiting name → s.signatures.find? name = declared.signatures.find? name

theorem Signature.Agrees.refl (s : Signature) : s.Agrees s := ⟨rfl, rfl, rfl, rfl⟩

theorem Passes.scope_eq {scope : Scope} {parameters : List Typed.Parameter} {body : List Stmt}
    {readTypes : Table NumType} {s s' : Checker} {typed : List Typed.Stmt}
    (h : Passes scope parameters body readTypes s typed s') : s'.scope = s.scope := by
  induction h with
  | last h _ =>
    obtain ⟨-⟩ := h
    rfl
  | again h _ _ ih =>
    obtain ⟨-⟩ := h
    exact ih

/-- Runs that are alike succeed together, with the same value. -/
theorem Alike.ok_iff {σ τ α : Type} {R : σ → τ → Prop} {x : EStateM.Result Diagnostic σ α}
    {y : EStateM.Result Diagnostic τ α} (h : Alike R (fun a b => b = a) x y) {a : α} :
    (∃ t, y = .ok a t) ↔ ∃ s, x = .ok a s := by
  obtain ⟨b, s, _, t, rfl, rfl, rfl, -⟩ | ⟨d, s, e, t, rfl, rfl, -, -⟩ := h.cases
  · simp
  · simp

namespace Checker.AsDeclared

variable {declared s s' : Checker} {waiting : String → Prop} {f : Function} {t : Typed.Function}

theorem refl (s : Checker) : s.AsDeclared (fun _ => True) s := by
  refine ⟨rfl, rfl, fun _ => rfl, fun name first last _ hfirst hlast => ?_, fun _ _ => rfl⟩
  cases hfirst.symm.trans hlast
  exact .refl _

theorem known (h : declared.AsDeclared waiting s) {name : String} {signature : Signature}
    (hs : s.signatures.find? name = some signature) :
    ∃ first, declared.signatures.find? name = some first ∧ signature.parameters = first.parameters := by
  have hp := h.parameters name
  rw [hs, Option.map_some] at hp
  obtain ⟨first, hfirst, hsame⟩ := Option.map_eq_some_iff.mp hp.symm
  exact ⟨first, hfirst, hsame.symm⟩

theorem fixedFor (h : declared.AsDeclared waiting s) {name : String} (hd : declared.FixedFor name) :
    s.FixedFor name := by
  intro signature hs
  obtain ⟨first, hfirst, -⟩ := h.known hs
  rw [(h.fixed name _ _ hd hfirst hs).resultFixed]
  exact hd first hfirst

theorem coupled (h : declared.AsDeclared waiting s) (hscope : declared.scope.function = none)
    {K : String → Prop} (hK : ∀ name, K name → waiting name ∨ declared.FixedFor name) :
    declared.cleared.Coupled K s.cleared := by
  refine ⟨h.options, rfl, rfl, rfl, rfl, rfl, h.scope, ?_, h.parameters, ?_⟩
  · intro name hname
    cases hscope.symm.trans hname
  · intro name signature signature' hname hd hs
    obtain hw | hf := hK name hname
    · cases hd.symm.trans ((h.waiting name hw).symm.trans hs)
      exact .refl _
    · exact h.fixed name _ _ hf hd hs

/-- A function that waits is checked as it would be right after the declarations. -/
theorem checkFunction_iff (h : declared.AsDeclared waiting s) (hscope : declared.scope.function = none)
    (hwait : waiting f.name) (hused : ∀ name ∈ usedCallsOfStmts f.body, declared.FixedFor name) :
    (∃ z, checkFunction f s = .ok t z) ↔ ∃ z, checkFunction f declared = .ok t z := by
  have hcoupled : declared.cleared.Coupled (fun name => name = f.name ∨ declared.FixedFor name) s.cleared := by
    refine h.coupled hscope ?_
    rintro name (rfl | hname)
    · exact .inl hwait
    · exact .inr hname
  have halike := checkFunction_alike (φ := id) f (.inl rfl) (fun name hname => .inr (hused name hname)) _ _ hcoupled
  rw [checkFunction_cleared, f.relocated_id, checkFunction_cleared] at halike
  simp only [Typed.Function.relocated_id] at halike
  exact halike.ok_iff

/-- The top-level statements are checked as they would be right after the declarations. -/
theorem checkEntry_iff (h : declared.AsDeclared waiting s) (hscope : declared.scope.function = none)
    {body : List Stmt} (span : Span) (hused : ∀ name ∈ usedCallsOfStmts body, declared.FixedFor name) :
    (∃ z, checkEntry body span s = .ok t z) ↔ ∃ z, checkEntry body span declared = .ok t z := by
  have hcoupled : declared.cleared.Coupled declared.FixedFor s.cleared :=
    h.coupled hscope fun _ hname => .inr hname
  have halike := checkEntry_alike (φ := id) body span hused _ _ hcoupled
  rw [checkEntry_cleared, relocatedStmts_id, id, checkEntry_cleared] at halike
  simp only [Typed.Function.relocated_id] at halike
  exact halike.ok_iff

/-- A checked function waits no longer; of the others as much is known as before. -/
theorem after (h : declared.AsDeclared waiting s)
    (hused : ∀ name ∈ usedCallsOfStmts f.body, declared.FixedFor name)
    (hrun : checkFunction f s = .ok t s') :
    declared.AsDeclared (fun name => waiting name ∧ name ≠ f.name) s' := by
  obtain @⟨body, s₁, signature, hp, hs, -⟩ := FunctionRun.of_check hrun
  have hfixed : ∀ name, declared.FixedFor name ∨ name ≠ f.name →
      s₁.signatures.find? name = s.signatures.find? name := by
    intro name hname
    refine hp.frame fun hin => ?_
    obtain hd | hne := hname
    · exact h.fixedFor hd
    · obtain hin | hin := hin
      · exact h.fixedFor (hused name hin)
      · exact absurd (Option.some.inj hin).symm hne
  have hother : ∀ name, name ≠ f.name →
      (s₁.withSignature f.name { signature with checked := true }).signatures.find? name =
        s.signatures.find? name :=
    fun name hne => (Table.find?_insert_of_ne _ _ hne).trans (hfixed name (.inr hne))
  have hself : (s₁.withSignature f.name { signature with checked := true }).signatures.find? f.name =
      some { signature with checked := true } := Table.find?_insert_self _ _ _
  refine ⟨hp.options_eq.trans h.options, hp.scope_eq.trans h.scope, ?_, ?_, ?_⟩
  · intro name
    by_cases hne : name = f.name
    · subst hne
      rw [hself, ← h.parameters, Option.map_some]
      have hgrow : s.signatures.Grows s₁.signatures := hp.signatures_grow
      cases hstart : s.signatures.find? f.name with
      | none =>
        rw [hgrow.unknown _ hstart] at hs
        cases hs
      | some start =>
        obtain ⟨later, hlater, hgrows⟩ := hgrow.known _ _ hstart
        cases hs.symm.trans hlater
        rw [Option.map_some, hgrows.parameters]
    · rw [hother name hne, h.parameters]
  · intro name first last hd hfirst hlast
    by_cases hne : name = f.name
    · subst hne
      rw [hself] at hlast
      cases hlast
      have hagrees := h.fixed _ _ _ hd hfirst ((hfixed _ (.inl hd)).symm.trans hs)
      refine ⟨hagrees.parameters, hagrees.result, hagrees.resultFixed, ?_⟩
      rw [Bool.or_true, hd first hfirst, Bool.true_or]
    · exact h.fixed name _ _ hd hfirst ((hother name hne).symm.trans hlast)
  · rintro name ⟨hw, hne⟩
    rw [hother name hne, h.waiting name hw]

end Checker.AsDeclared

/-- What a function is checked to if it comes first. -/
def Function.alone (f : Function) (declared : Checker) : Option Typed.Function :=
  (answer (checkFunction f declared)).toOption

theorem Function.alone_eq_some {f : Function} {declared : Checker} {t : Typed.Function} :
    f.alone declared = some t ↔ ∃ z, checkFunction f declared = .ok t z := by
  unfold alone
  cases checkFunction f declared <;> simp [answer, Except.toOption]

section Functions

variable {declared s : Checker} (hscope : declared.scope.function = none)

include hscope

/-- Functions are checked one after the other as each is alone. -/
theorem checkFunctions_alone {fs : List Function} {ts : List Typed.Function} {z : Checker}
    {waiting : String → Prop} (h : declared.AsDeclared waiting s) (hwait : ∀ f ∈ fs, waiting f.name)
    (hnodup : (fs.map (·.name)).Nodup)
    (hused : ∀ f ∈ fs, ∀ name ∈ usedCallsOfStmts f.body, declared.FixedFor name)
    (hrun : checkFunctions fs s = .ok ts z) :
    fs.map (·.alone declared) = ts.map some ∧ ∃ waiting, declared.AsDeclared waiting z := by
  induction fs generalizing s ts waiting with
  | nil =>
    cases hrun
    exact ⟨rfl, waiting, h⟩
  | cons f fs ih =>
    obtain ⟨t, s₁, ht, k⟩ := bind_eq_ok.mp hrun
    obtain ⟨rest, s₂, hrest, k₁⟩ := bind_eq_ok.mp k
    cases k₁
    rw [List.forall_mem_cons] at hwait hused
    rw [List.map_cons, List.nodup_cons] at hnodup
    have hfirst := (h.checkFunction_iff hscope hwait.1 hused.1).mp ⟨s₁, ht⟩
    have hwaits : ∀ g ∈ fs, waiting g.name ∧ g.name ≠ f.name := fun g hg =>
      ⟨hwait.2 g hg, fun heq => hnodup.1 (heq ▸ List.mem_map_of_mem hg)⟩
    obtain ⟨hothers, hend⟩ := ih (h.after hused.1 ht) hwaits hnodup.2 hused.2 hrest
    exact ⟨by rw [List.map_cons, List.map_cons, Function.alone_eq_some.mpr hfirst, hothers], hend⟩

/-- Functions that pass alone pass one after the other. -/
theorem checkFunctions_of_alone {fs : List Function} {ts : List Typed.Function}
    {waiting : String → Prop} (h : declared.AsDeclared waiting s) (hwait : ∀ f ∈ fs, waiting f.name)
    (hnodup : (fs.map (·.name)).Nodup)
    (hused : ∀ f ∈ fs, ∀ name ∈ usedCallsOfStmts f.body, declared.FixedFor name)
    (halone : fs.map (·.alone declared) = ts.map some) : ∃ z, checkFunctions fs s = .ok ts z := by
  induction fs generalizing s ts waiting with
  | nil =>
    cases List.map_eq_nil_iff.mp halone.symm
    exact ⟨s, rfl⟩
  | cons f fs ih =>
    cases ts with
    | nil => cases halone
    | cons t ts =>
      rw [List.map_cons, List.map_cons, List.cons.injEq] at halone
      rw [List.forall_mem_cons] at hwait hused
      rw [List.map_cons, List.nodup_cons] at hnodup
      obtain ⟨s₁, ht⟩ := (h.checkFunction_iff hscope hwait.1 hused.1).mpr
        (Function.alone_eq_some.mp halone.1)
      have hwaits : ∀ g ∈ fs, waiting g.name ∧ g.name ≠ f.name := fun g hg =>
        ⟨hwait.2 g hg, fun heq => hnodup.1 (heq ▸ List.mem_map_of_mem hg)⟩
      obtain ⟨z, hrest⟩ := ih (h.after hused.1 ht) hwaits hnodup.2 hused.2 halone.2
      exact ⟨z, (bind_of_ok ht).trans (bind_of_ok hrest)⟩

end Functions

end Numlet
