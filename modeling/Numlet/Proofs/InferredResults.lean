import Numlet.Proofs.Check.Programs
import Numlet.Proofs.Check.Retyped
import Numlet.Proofs.Settling

/-!
The result of a function that declares none and that no call pins. It is carried over from pass to pass and
wanted of the values that are returned later, and yet nothing of an earlier pass is left in the end. Main
statement: `inferred_result_is_widest_return`.
-/
namespace Numlet
open Checking NumType

/-- The result of `f`, if it has one so far, is the type of a returned value. -/
def Checker.ResultReturned (s : Checker) (f : String) (parts : List Typed.Stmt) : Prop :=
  ∀ type, s.result? f = some type → Typed.Returns parts type

section Passes

variable {scope : Scope} {parameters : List Typed.Parameter} {body : List Stmt} {f : String}
  {readTypes : Table NumType} {s s' s₁ s₂ : Checker} {typed typed' : List Typed.Stmt} {type : NumType}

theorem PassRun.resultFrom (h : PassRun scope parameters body readTypes s typed s')
    (hf : scope.function = some f) : Checker.ResultFrom f (Typed.partsOfStmts typed) s s' := by
  obtain ⟨h⟩ := h
  have hin := s.entered_steps (N := fun _ => True) scope readTypes parameters fun _ _ => trivial
  have hstart : Checker.ResultFrom f [] (s.fresh scope readTypes) _ := .of_steps hin
  exact hstart.trans (h.resultFrom (hin.extends.function.trans hf)) h.free.extends.signatures

theorem PassRun.returned_le (h : PassRun scope parameters body readTypes s typed s')
    (hf : scope.function = some f) (hret : Typed.Returns (Typed.partsOfStmts typed) type) :
    type.rank ≤ wanted (s'.result? f) := by
  obtain ⟨h⟩ := h
  have hin := s.entered_steps (N := fun _ => True) scope readTypes parameters fun _ _ => trivial
  obtain ⟨value, span, hmem, rfl⟩ := hret
  obtain ⟨g, signature, hg, hs, -, hle⟩ := (h.made.2 _ hmem).returned
  cases (hin.extends.function.trans hf).symm.trans hg
  exact (congrArg wanted (Checker.result?_eq hs)) ▸ hle

/-- A pass returns what the pass before has returned, or something wider. -/
theorem PassRun.matched (hempty : scope.bindings = .empty) (hf : scope.function = some f)
    (h : PassRun scope parameters body readTypes s typed s₁) (hread : readTypes.Below s₁.storage)
    (h' : PassRun scope parameters body s₁.storage s₁ typed' s₂) :
    ReturnsMatched (s₂.result? f) (Typed.partsOfStmts typed) (Typed.partsOfStmts typed') := by
  cases h with
  | mk h =>
    cases h' with
    | mk h' =>
      have hstart := (Checker.Retraced.fresh (s := s) hempty hread).entered parameters
      have hin := fun (s : Checker) (readTypes : Table NumType) =>
        (s.entered_steps (N := fun _ => True) scope readTypes parameters fun _ _ => trivial).extends
      have hmatched := StmtsRun.matched body h h' hstart ⟨.refl _, .refl _⟩
        ((hin s readTypes).function.trans hf) ((hin _ _).function.trans hf)
      exact hmatched

/-- If the result is that of a returned value after a pass, it is after the next one. -/
theorem PassRun.resultReturned_again (hempty : scope.bindings = .empty) (hf : scope.function = some f)
    (h : PassRun scope parameters body readTypes s typed s₁) (hread : readTypes.Below s₁.storage)
    (h' : PassRun scope parameters body s₁.storage s₁ typed' s₂) (hopen : ¬ s₂.Fixes f)
    (hreturned : s₁.ResultReturned f (Typed.partsOfStmts typed)) :
    s₂.ResultReturned f (Typed.partsOfStmts typed') := by
  intro type htype
  obtain hsame | ⟨set, hret, hset⟩ := h'.resultFrom hf hopen
  · -- The result has stayed, so what is returned now is no wider, and something is no narrower.
    have hold := hreturned type (hsame.symm.trans htype)
    obtain ⟨wider, hret, hle⟩ | ⟨rfl, hfraction⟩ := h.matched hempty hf hread h' type hold
    · have hge := h'.returned_le hf hret
      rw [htype, wanted_some] at hge
      rwa [eq_of_rank_eq (Nat.le_antisymm hle hge)]
    · rw [htype] at hfraction
      exact absurd hfraction (by decide)
  · cases hset.symm.trans htype
    exact hret

/-- The passes end with the type of a returned value for a result, if a pass from their start does. -/
theorem Passes.resultReturned (h : Passes scope parameters body readTypes s typed s')
    (hempty : scope.bindings = .empty) (hf : scope.function = some f) (hopen : ¬ s'.Fixes f)
    (hstart : ∀ typed₁ s₁, PassRun scope parameters body readTypes s typed₁ s₁ → ¬ s₁.Fixes f →
      readTypes.Below s₁.storage ∧ s₁.ResultReturned f (Typed.partsOfStmts typed₁)) :
    s'.ResultReturned f (Typed.partsOfStmts typed) := by
  induction h with
  | last h _ => exact (hstart _ _ h hopen).2
  | @again readTypes s typed s₁ final s₂ h _ hs ih =>
    have hmid : ¬ s₁.Fixes f := fun hfix => hopen (hfix.of_grows hs.signatures_grow)
    obtain ⟨hread, hreturned⟩ := hstart _ _ h hmid
    refine ih hopen fun typed₂ s₂ h₂ hopen₂ => ⟨(h.storage_under hempty hread h₂).below, ?_⟩
    exact h.resultReturned_again hempty hf hread h₂ hopen₂ hreturned

theorem Passes.result?_eq (h : Passes scope parameters body readTypes s typed s')
    (hf : scope.function ≠ some f) (hopen : ¬ s'.Fixes f) : s'.result? f = s.result? f := by
  induction h with
  | @last readTypes s typed s₁ number h _ =>
    exact h.advance.result?_eq (s := s.fresh scope readTypes) hf hopen
  | @again readTypes s typed s₁ final s₂ h _ hs ih =>
    refine (ih hopen).trans (h.advance.result?_eq (s := s.fresh scope readTypes) hf fun hfix => ?_)
    exact hopen (hfix.of_grows (s := s₁) hs.signatures_grow)

end Passes

section Functions

variable {f g : Function} {fs gs : List Function} {s s' s₁ : Checker} {t : Typed.Function}
  {ts us : List Typed.Function}

theorem Checker.Fixes.checked {name other : String} {signature : Signature}
    (h : s.Fixes other) (hs : s.signatures.find? name = some signature) :
    (s.withSignature name { signature with checked := true }).Fixes other := by
  obtain ⟨known, hknown, hx⟩ := h
  by_cases hn : other = name
  · subst hn
    cases hs.symm.trans hknown
    exact ⟨_, Table.find?_insert_self _ _ _, hx⟩
  · exact ⟨known, (Table.find?_insert_of_ne _ _ hn).trans hknown, hx⟩

/-- Checking another function leaves a result alone that is open in the end. -/
theorem FunctionRun.result?_eq (h : FunctionRun g s t s') {name : String} (hn : name ≠ g.name)
    (hopen : ¬ s'.Fixes name) : s'.result? name = s.result? name := by
  obtain @⟨body, s₁, signature, hp, hs, -⟩ := h
  have hother : (Scope.forFunction g.name).function ≠ some name := by
    simpa [Scope.forFunction] using hn.symm
  rw [Checker.result?_withSignature_of_ne _ _ hn]
  exact hp.result?_eq hother fun hfix => hopen (hfix.checked hs)

theorem FunctionRun.fixes (h : FunctionRun g s t s') {name : String} (hfix : s.Fixes name) :
    s'.Fixes name := by
  obtain @⟨body, s₁, signature, hp, hs, -⟩ := h
  have hdone : s₁.Fixes name := hfix.of_grows hp.signatures_grow
  exact hdone.checked hs

theorem FunctionsRun.fixes (h : FunctionsRun fs s ts s') {name : String} (hfix : s.Fixes name) :
    s'.Fixes name := by
  induction h with
  | nil => exact hfix
  | cons h _ ih => exact ih (h.fixes hfix)

theorem FunctionsRun.result?_eq (h : FunctionsRun fs s ts s') {name : String}
    (hn : ∀ g ∈ fs, name ≠ g.name) (hopen : ¬ s'.Fixes name) : s'.result? name = s.result? name := by
  induction h with
  | nil => rfl
  | cons h hs ih =>
    rw [List.forall_mem_cons] at hn
    exact (ih hn.2 hopen).trans (h.result?_eq hn.1 fun hfix => hopen (hs.fixes hfix))

theorem FunctionsRun.awaits (h : FunctionsRun fs s ts s') (hn : ∀ g ∈ fs, f.name ≠ g.name)
    (ha : s.Awaits f) : s'.Awaits f := by
  induction h with
  | nil => exact ha
  | cons h _ ih =>
    rw [List.forall_mem_cons] at hn
    exact ih hn.2 (ha.of_run h hn.1)

/-- A function that has no result when its check begins, and none that is fixed when it ends, has the widest
type that it returns for a result. -/
theorem FunctionRun.widest (h : FunctionRun f s t s') (ha : s.Awaits f) (hnone : s.result? f.name = none)
    (hopen : ¬ s'.Fixes f.name) :
    (t.result = none ↔ ∀ type, ¬ Typed.Returns (Typed.partsOfStmts t.body) type) ∧
      ∀ result, t.result = some result → Typed.Returns (Typed.partsOfStmts t.body) result ∧
        ∀ type, Typed.Returns (Typed.partsOfStmts t.body) type → type.rank ≤ result.rank := by
  have hreturns : ∀ type, Typed.Returns (Typed.partsOfStmts t.body) type →
      ∃ result, t.result = some result ∧ type.rank ≤ result.rank := by
    rintro type ⟨value, span, hmem, rfl⟩
    exact (h.returns ha).1 value span hmem
  have hresult : ∀ result, t.result = some result → Typed.Returns (Typed.partsOfStmts t.body) result := by
    obtain @⟨body, s₁, signature, hp, hs, -⟩ := h
    intro result hresult
    refine hp.resultReturned rfl rfl (fun hfix => hopen (hfix.checked hs)) ?_ result
      ((Checker.result?_eq hs).trans hresult)
    -- The first pass starts without a result.
    intro typed₁ s₂ hfirst hopen₂
    have hread : Table.empty.Below s₂.storage := fun _ _ h => nomatch h
    refine ⟨hread, fun type htype => ?_⟩
    obtain hsame | ⟨set, hret, hset⟩ := hfirst.resultFrom rfl hopen₂
    · cases (htype.symm.trans hsame).trans hnone
    · cases hset.symm.trans htype
      exact hret
  refine ⟨⟨fun htype type hret => ?_, fun hno => ?_⟩, fun result hsome => ⟨hresult result hsome, ?_⟩⟩
  · obtain ⟨result, hsome, -⟩ := hreturns type hret
    cases htype.symm.trans hsome
  · cases hsome : t.result with
    | none => rfl
    | some result => exact absurd (hresult result hsome) (hno result)
  · intro type hret
    obtain ⟨known, hknown, hle⟩ := hreturns type hret
    cases hsome.symm.trans hknown
    exact hle

end Functions

section Programs

variable {p : Program} {options : Options} {typed : Typed.Program} {f : Function} {t : Typed.Function}
  {s z : Checker}

/-- In the check of a program, that of its function `f` gives `t` and finishes in the state `s`. -/
def Program.Finishes (p : Program) (options : Options) (f : Function) (t : Typed.Function)
    (s : Checker) : Prop :=
  ∃ before after s₀ ts s₁, p.functions = before ++ f :: after ∧
    declareFunctions p.functions (.new options) = .ok () s₀ ∧
    checkFunctions before s₀ = .ok ts s₁ ∧ checkFunction f s₁ = .ok t s

theorem checkFunctions_each {fs : List Function} {s s' : Checker} {ts : List Typed.Function}
    (h : checkFunctions fs s = .ok ts s') :
    List.Forall₂ (fun f t => ∃ before after us s₁ s₂, fs = before ++ f :: after ∧
      checkFunctions before s = .ok us s₁ ∧ checkFunction f s₁ = .ok t s₂) fs ts := by
  induction fs generalizing s ts with
  | nil =>
    cases h
    exact .nil
  | cons f fs ih =>
    obtain ⟨t, s₁, ht, k⟩ := bind_eq_ok.mp h
    obtain ⟨rest, s₂, hr, k₁⟩ := bind_eq_ok.mp k
    cases k₁
    refine .cons ⟨[], fs, [], s, s₁, rfl, rfl, ht⟩ ((ih hr).imp ?_)
    rintro g u ⟨before, after, us, s₃, s₄, rfl, hb, hg⟩
    refine ⟨f :: before, after, t :: us, s₃, s₄, rfl, ?_, hg⟩
    exact (bind_of_ok ht).trans (bind_of_ok hb)

/-- Every function of a program that is accepted has been checked at some point. -/
theorem Program.finishes (h : p.check options = .ok typed z) :
    List.Forall₂ (fun f t => ∃ s, p.Finishes options f t s) p.functions typed.functions := by
  obtain ⟨-, s₀, s₁, hd, hf, -⟩ := Program.check_eq_ok.mp h
  refine (checkFunctions_each hf).imp ?_
  rintro f t ⟨before, after, us, s₂, s₃, hsplit, hb, ht⟩
  exact ⟨s₃, before, after, s₀, us, s₂, hsplit, hd, hb, ht⟩

/-- A function is checked while it waits, and without a result if it declares none and none is pinned. -/
theorem Program.Finishes.run (h : p.Finishes options f t s) :
    ∃ s₁, FunctionRun f s₁ t s ∧ s₁.Awaits f ∧
      (f.result = none → ¬ s.Fixes f.name → s₁.result? f.name = none) := by
  obtain ⟨before, after, s₀, ts, s₁, hp, hd, hb, ht⟩ := h
  have hdeclared := DeclareRun.of_check hd
  have hbefore := FunctionsRun.of_check hb
  have hrun := FunctionRun.of_check ht
  have hmem : f ∈ p.functions := by
    rw [hp]
    exact List.mem_append_right _ List.mem_cons_self
  have hother : ∀ g ∈ before, f.name ≠ g.name := by
    intro g hg hsame
    have hnodup := hdeclared.nodup
    rw [hp, List.map_append, List.nodup_append] at hnodup
    exact hnodup.2.2 g.name (List.mem_map_of_mem hg) f.name (by simp) hsame.symm
  refine ⟨s₁, hrun, hbefore.awaits hother (hdeclared.awaits hmem), fun hnone hopen => ?_⟩
  rw [hbefore.result?_eq hother fun hfix => hopen (hrun.fixes hfix),
    Checker.result?_eq (hdeclared.find?_of_mem hmem)]
  exact hnone

end Programs

/-- The result of a function that declares none and is not fixed when its check finishes is the widest type
among the values that its checked body returns, and it has no result exactly if it returns no value. -/
theorem inferred_result_is_widest_return {p : Program} {options : Options} {typed : Typed.Program}
    {z : Checker} (h : p.check options = .ok typed z) :
    List.Forall₂ (fun f t => ∃ s, p.Finishes options f t s ∧
      (f.result = none → ¬ s.Fixes f.name →
        (t.result = none ↔ ∀ type, ¬ Typed.Returns (Typed.partsOfStmts t.body) type) ∧
        ∀ result, t.result = some result → Typed.Returns (Typed.partsOfStmts t.body) result ∧
          ∀ type, Typed.Returns (Typed.partsOfStmts t.body) type → type.rank ≤ result.rank))
      p.functions typed.functions := by
  refine (Program.finishes h).imp ?_
  rintro f t ⟨s, hfinish⟩
  refine ⟨s, hfinish, fun hnone hopen => ?_⟩
  obtain ⟨s₁, hrun, hawaits, hstart⟩ := hfinish.run
  exact hrun.widest hawaits (hstart hnone hopen) hopen

def widenedLater : String :=
  "fn f(n) \x7b let x = 1; if n \x7b return x; \x7d x = 2.5 as f64; return 3; \x7d"

/-- The only function of a program names no result, and its check arrives at `type`. -/
def Program.infersAlone (p : Program) (type : NumType) : Bool :=
  match p.functions, declareFunctions p.functions (.new {}) with
  | [f], .ok _ s₀ => f.result.isNone && (match checkFunction f s₀ with
    | .ok t s => t.result == some type && (s.signatures.find? f.name).all (!·.resultFixed)
    | .error _ _ => false)
  | _, _ => false

/-- The first pass returns an `i32`; the local that it reads is found to be an `f64` only afterwards. -/
theorem inferred_result_of_later_pass :
    ∃ p typed z, Program.ofSource widenedLater "" = .ok p ∧ p.check {} = .ok typed z ∧
      ∃ f t s, p.functions = [f] ∧ typed.functions = [t] ∧ p.Finishes {} f t s ∧ f.result = none ∧
        ¬ s.Fixes f.name ∧ t.result = some .f64 ∧ Typed.Returns (Typed.partsOfStmts t.body) .f64 := by
  obtain ⟨p, hp, hopen⟩ := exists_ok_of_decide
    (P := fun p : Program => p.infersAlone .f64 = true)
    (x := Program.ofSource widenedLater "") (by decide +kernel)
  obtain ⟨typed, hsource, -⟩ := exists_ok_of_decide (P := fun _ => True)
    (x := checkSource widenedLater "" {}) (by decide +kernel)
  obtain ⟨q, z, hq, h⟩ := checkSource_eq_ok.mp hsource
  cases hp.symm.trans hq
  have hall := inferred_result_is_widest_return h
  unfold Program.infersAlone at hopen
  split at hopen
  · next f _ s₀ hfunctions hd =>
    rw [hfunctions] at hall
    cases htyped : typed.functions with
    | nil =>
      rw [htyped] at hall
      cases hall
    | cons t ts =>
      rw [htyped] at hall
      obtain ⟨⟨s, hfinish, hwidest⟩, hrest⟩ := List.forall₂_cons.mp hall
      cases hrest
      have hfinish' := hfinish
      -- The only function is checked right after the declaration.
      obtain ⟨before, after, s₁, us, s₂, hsplit, hd', hb, ht⟩ := hfinish'
      cases hd.symm.trans hd'
      rw [hfunctions] at hsplit
      cases before with
      | cons g before => simp at hsplit
      | nil =>
        cases hb
        simp only [ht, Bool.and_eq_true, Option.isNone_iff_eq_none, beq_iff_eq] at hopen
        obtain ⟨hnone, hresult, hunfixed⟩ := hopen
        have hnot : ¬ s.Fixes f.name := by
          rintro ⟨signature, hs, hx⟩
          rw [hs] at hunfixed
          simp [hx] at hunfixed
        exact ⟨p, typed, z, hp, h, f, t, s, hfunctions, htyped, hfinish, hnone, hnot, hresult,
          ((hwidest hnone hnot).2 _ hresult).1⟩
  · cases hopen

end Numlet
