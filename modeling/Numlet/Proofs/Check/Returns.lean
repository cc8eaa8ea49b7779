import Numlet.Proofs.Check.Body

/-!
What returns have to do with results. No return has a value wider than the result, and a body that
returns without a value has none.
-/
namespace Numlet
open Checking

variable {N : String → Prop}

/-- Whether a function counts as one with a result. -/
def Signature.HasResult (signature : Signature) : Prop :=
  signature.resultFixed = true ∨ signature.result.isSome = true

theorem Signature.Grows.isSome {a b : Signature} (h : a.Grows b) (ha : a.result.isSome = true) :
    b.result.isSome = true := by
  obtain ⟨t, ht⟩ := Option.isSome_iff_exists.mp ha
  obtain ⟨u, hu, -⟩ := h.result t ht
  rw [hu]
  rfl

theorem Signature.Grows.hasResult {a b : Signature} (h : a.Grows b) (ha : a.HasResult) :
    b.HasResult :=
  ha.imp h.fixed h.isSome

theorem Signature.Grows.rank_le {a b : Signature} (h : a.Grows b) :
    (a.result.getD .i32).rank ≤ (b.result.getD .i32).rank := by
  cases ha : a.result with
  | none => exact Nat.zero_le _
  | some t =>
    obtain ⟨u, hu, htu⟩ := h.result t ha
    rw [hu]
    exact htu

/-- A fixed result of `f` is there. -/
def Checker.FixedHave (s : Checker) (f : String) : Prop :=
  ∀ signature, s.signatures.find? f = some signature → signature.resultFixed = true →
    signature.result.isSome = true

theorem Step.fixedHave {s s' : Checker} (h : Step N s s') {f : String} (hf : s.FixedHave f) :
    s'.FixedHave f := by
  intro signature hs hx
  cases h with
  | report | assign | declare => exact hf signature hs hx
  | @pin callee pinned hp hc =>
    by_cases hn : f = callee
    · subst hn
      rw [Checker.pinned, Checker.withSignature, Table.find?_insert_self] at hs
      cases hs
      rfl
    · exact hf signature ((Table.find?_insert_of_ne _ _ hn).symm.trans hs) hx

theorem Steps.fixedHave {s s' : Checker} (h : Steps N s s') {f : String} (hf : s.FixedHave f) :
    s'.FixedHave f := by
  induction h with
  | refl => exact hf
  | tail _ step ih => exact step.fixedHave ih

theorem Advance.fixedHave {s s' : Checker} (h : Advance N s s') {f : String} (hf : s.FixedHave f) :
    s'.FixedHave f := by
  induction h with
  | steps h => exact h.fixedHave hf
  | trans _ _ ih₁ ih₂ => exact ih₂ (ih₁ hf)
  | bare | valued => exact hf
  | @infer s s₁ g signature current type hg hsig hx h hc =>
    intro found hs hfixed
    by_cases hn : f = g
    · subst hn
      rw [Checker.withSignature, Table.find?_insert_self] at hs
      cases hs
      rfl
    · exact h.fixedHave hf found ((Table.find?_insert_of_ne _ _ hn).symm.trans hs) hfixed
  | inner hb hfun h ih => exact ih hf

theorem Steps.flags {s s' : Checker} (h : Steps N s s') :
    s'.bareReturn = s.bareReturn ∧ s'.valuedReturn = s.valuedReturn := by
  induction h with
  | refl => exact ⟨rfl, rfl⟩
  | tail _ step ih => cases step <;> exact ih

/-- The current function does not return both with and without a value, and has a result if it returns
with one. -/
structure Checker.Returns (s : Checker) : Prop where
  bare : s.bareReturn = true → s.valuedReturn = false
  valued : s.valuedReturn = true → ∀ f, s.scope.function = some f →
    ∃ signature, s.signatures.find? f = some signature ∧ signature.HasResult

theorem Checker.Returns.of_grows {s s' : Checker} (h : s.Returns) (hg : s.signatures.Grows s'.signatures)
    (hf : s'.scope.function = s.scope.function) (hb : s'.bareReturn = s.bareReturn)
    (hv : s'.valuedReturn = s.valuedReturn) : s'.Returns where
  bare hbare := by
    rw [hv]
    exact h.bare (hb.symm.trans hbare)
  valued hvalued f hfun := by
    obtain ⟨signature, hs, hr⟩ := h.valued (hv.symm.trans hvalued) f (hf.symm.trans hfun)
    obtain ⟨later, hl, hgrow⟩ := hg.known f signature hs
    exact ⟨later, hl, hgrow.hasResult hr⟩

theorem Advance.returns {s s' : Checker} (h : Advance N s s') (hr : s.Returns)
    (hx : ∀ f, s.scope.function = some f → s.FixedHave f) : s'.Returns := by
  induction h with
  | steps h => exact hr.of_grows h.extends.signatures h.extends.function h.flags.1 h.flags.2
  | trans h₁ _ ih₁ ih₂ =>
    refine ih₂ (ih₁ hr hx) fun f hf => h₁.fixedHave (hx f ?_)
    rwa [h₁.extends.function] at hf
  | @bare s f signature hf hs hnone =>
    have hv : s.valuedReturn = false := by
      cases hv : s.valuedReturn with
      | false => rfl
      | true =>
        obtain ⟨found, hfound, hres⟩ := hr.valued hv f hf
        rw [hs] at hfound
        cases hfound
        have hsome := hres.elim (hx f hf signature hs) id
        rw [hnone] at hsome
        cases hsome
    exact ⟨fun _ => hv, hr.valued⟩
  | @valued s f signature hf hs hres hb =>
    refine ⟨fun hbare => ?_, fun _ g hg => ?_⟩
    · rw [hb] at hbare
      cases hbare
    · rw [hf] at hg
      cases hg
      exact ⟨signature, hs, hres⟩
  | @infer s s₁ f signature current type hf hs hopen h hc =>
    have hg := h.extends.signatures.trans (h.grows_inferred hs hc type).signatures
    exact hr.of_grows hg h.extends.function h.flags.1 h.flags.2
  | @inner s s₁ scope hb hfun h ih =>
    have hin := ih ⟨hr.bare, fun hv f hf => hr.valued hv f (hfun ▸ hf)⟩ fun f hf => hx f (hfun ▸ hf)
    have hfun' : s₁.scope.function = s.scope.function := h.extends.function.trans hfun
    exact ⟨hin.bare, fun hv f hf => hin.valued hv f (hfun'.trans hf)⟩

/-- A value that is returned is no wider than the result. -/
theorem MadeStmt.returned {s s' : Checker} {value : Typed.Expr} {span : Span}
    (h : MadeStmt s s' (.returnValue (some value) span)) :
    ∃ f signature, s.scope.function = some f ∧ s'.signatures.find? f = some signature ∧
      signature.HasResult ∧ value.type.rank ≤ (signature.result.getD .i32).rank := by
  obtain ⟨stmt, s₁, s₂, hrun, hin, hout⟩ := h
  cases hrun with
  | @returnFixed _ _ _ f signature _ s₃ hf hs hv hb hx ht =>
    obtain ⟨later, hl, hg⟩ := (hv.free.extends.signatures.trans hout.signatures).known f signature hs
    exact ⟨f, later, hin.function.symm.trans hf, hl, hg.hasResult (.inl hx),
      Nat.le_trans ht hg.rank_le⟩
  | @returnInferred _ _ _ f signature _ s₃ current hf hs hv hb hx hc =>
    obtain ⟨later, hl, hg⟩ := hout.signatures.known f _ (Table.find?_insert_self _ _ _)
    refine ⟨f, later, hin.function.symm.trans hf, hl, hg.hasResult (.inr rfl), ?_⟩
    exact Nat.le_trans (NumType.rank_le_joinKnown _ _) hg.rank_le

/-- A function that returns without a value had no result when its body was entered. -/
theorem MadeStmt.returnedBare {s s' : Checker} {span : Span}
    (h : MadeStmt s s' (.returnValue none span)) :
    s'.bareReturn = true ∧ ∃ f, s.scope.function = some f ∧
      ∀ signature, s.signatures.find? f = some signature → signature.result = none := by
  obtain ⟨stmt, s₁, s₂, hrun, hin, hout⟩ := h
  cases hrun with
  | @returnBare _ _ f signature hf hs hr =>
    refine ⟨hout.bareReturn rfl, f, hin.function.symm.trans hf, fun first hfirst => ?_⟩
    obtain ⟨later, hl, hg⟩ := hin.grows.signatures.known f first hfirst
    rw [hs] at hl
    cases hl
    cases hres : first.result with
    | none => rfl
    | some t =>
      obtain ⟨u, hu, -⟩ := hg.result t hres
      rw [hr] at hu
      cases hu

end Numlet
