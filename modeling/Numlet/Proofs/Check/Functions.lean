import Numlet.Proofs.Check.Returns

/-!
Checking the functions of a program one after the other. What a function knows of itself and of those
that it calls when its body is done still holds at the end of the program.
-/
namespace Numlet
open Checking

section Passes

variable {scope : Scope} {parameters : List Typed.Parameter} {body : List Stmt}
  {readTypes : Table NumType} {s s' z : Checker} {typed : List Typed.Stmt}

/-- The last pass over a body, at whose start everything holds that passes keep. -/
theorem Passes.final {P : Checker → Prop} (h : Passes scope parameters body readTypes s typed s')
    (hP : ∀ readTypes s typed s₁, PassRun scope parameters body readTypes s typed s₁ → P s → P s₁)
    (hs : P s) :
    ∃ readTypes s₀ s₁ number, PassRun scope parameters body readTypes s₀ typed s₁ ∧
      s₁.storage.agrees readTypes = true ∧ P s₀ ∧ s' = s₁.reported (.storageSettled number) := by
  induction h with
  | @last readTypes s typed s₁ number h ha => exact ⟨readTypes, s, s₁, number, h, ha, hs, rfl⟩
  | again h _ _ ih => exact ih (hP _ _ _ _ h hs)

theorem PassRun.fixedHave (h : PassRun scope parameters body readTypes s typed s') {f : String}
    (hf : s.FixedHave f) : s'.FixedHave f :=
  h.advance.fixedHave (s := s.fresh scope readTypes) hf

theorem Passes.fixedHave (h : Passes scope parameters body readTypes s typed s') {f : String}
    (hf : s.FixedHave f) : s'.FixedHave f := by
  induction h with
  | last h _ => exact h.fixedHave hf
  | again h _ _ ih => exact ih (h.fixedHave hf)

theorem Passes.pinsHold (h : Passes scope parameters body readTypes s typed s') {f : String}
    {E : NumType → Prop} (hp : s.PinsHold f E) (hf : scope.function ≠ some f) :
    s'.PinsHold f E := by
  induction h with
  | @last readTypes s typed s₁ number h _ =>
    have hpass := h.advance.pinsHold (s := s.fresh scope readTypes) hp hf
    exact fun t ht => hpass t (Checker.pinned_of_reported (by simp) f t ht)
  | @again readTypes s typed s₁ final s₂ h _ _ ih =>
    exact ih (h.advance.pinsHold (s := s.fresh scope readTypes) hp hf)

theorem Passes.options_eq (h : Passes scope parameters body readTypes s typed s') :
    s'.options = s.options := by
  induction h with
  | last h _ => exact h.advance.extends.options
  | again h _ _ ih => exact ih.trans h.advance.extends.options

end Passes

/-- A declared function before its body is checked. -/
structure Checker.Awaits (s : Checker) (f : Function) : Prop where
  known : ∃ signature, s.signatures.find? f.name = some signature ∧
    signature.parameters = f.parameters.map Parameter.type ∧ signature.checked = false ∧
    (f.result.isSome = true → signature.result.isSome = true)
  fixed : s.FixedHave f.name
  pins : s.PinsHold f.name fun _ => False

namespace Checker.Awaits

variable {s s' : Checker} {f g : Function} {t : Typed.Function}

theorem unfinished (h : s.Awaits f) : (s.withScope (.forFunction f.name)).Unfinished := by
  intro name signature hf hs
  cases hf
  obtain ⟨first, hfirst, -, hc, -⟩ := h.known
  rw [Checker.withScope, hfirst] at hs
  cases hs
  exact hc

/-- A function goes on waiting while another one is checked. -/
theorem of_run (h : s.Awaits f) (hrun : FunctionRun g s t s') (hne : f.name ≠ g.name) :
    s'.Awaits f := by
  obtain @⟨body, s₁, signature, hp, hs, hr⟩ := hrun
  have hgrow : s.signatures.Grows s₁.signatures := hp.signatures_grow
  have hkeep : ∀ found, s₁.signatures.find? f.name = some found →
      (s₁.withSignature g.name { signature with checked := true }).signatures.find? f.name =
        some found :=
    fun found hfound => (Table.find?_insert_of_ne _ _ hne).trans hfound
  refine ⟨?_, ?_, ?_⟩
  · obtain ⟨first, hfirst, hparams, hc, hres⟩ := h.known
    obtain ⟨later, hl, hg⟩ := hgrow.known _ _ hfirst
    exact ⟨later, hkeep _ hl, hg.parameters.trans hparams, hg.checked.trans hc,
      fun hsome => hg.isSome (hres hsome)⟩
  · intro found hfound
    exact hp.fixedHave (s := s.reported _) h.fixed found
      ((Table.find?_insert_of_ne _ _ hne).symm.trans hfound)
  · have hstart : (s.reported (.checkingFunction g.name)).PinsHold f.name fun _ => False :=
      fun v hv => h.pins v (pinned_of_reported (by simp) _ v hv)
    have hend := hp.pinsHold hstart (by simpa [Scope.forFunction] using hne.symm)
    exact fun u hu => .inr ((hend.fixedAt hu).of_insert hne rfl)

end Checker.Awaits

/-- A function that has been checked keeps its result. -/
theorem Checker.checked_later {s : Checker} {f : String} {signature : Signature}
    (hs : s.signatures.find? f = some signature) :
    s.Later (s.withSignature f { signature with checked := true }) where
  signatures name first hfirst := by
    by_cases hn : name = f
    · subst hn
      rw [hs] at hfirst
      cases hfirst
      refine ⟨_, Table.find?_insert_self _ _ _, rfl, fun _ => ⟨Bool.or_true _, rfl⟩, ?_⟩
      exact fun t ht => ⟨t, ht, Nat.le_refl _⟩
    · exact ⟨first, (Table.find?_insert_of_ne _ _ hn).trans hfirst, .refl _⟩
  log _ h := h
  pins _ _ _ _ _ h := h

theorem FunctionRun.later {f : Function} {s s' : Checker} {t : Typed.Function}
    (h : FunctionRun f s t s') (ha : s.Awaits f) : s.Later s' := by
  obtain ⟨hp, hs, -⟩ := h
  have hstart : s.Later (s.reported (.checkingFunction f.name)) := Checker.reported_later (by simp)
  exact hstart.trans ((hp.later ha.unfinished).trans (Checker.checked_later hs))

theorem FunctionRun.unknown {f : Function} {s s' : Checker} {t : Typed.Function}
    (h : FunctionRun f s t s') {name : String} (hn : s.signatures.find? name = none) :
    s'.signatures.find? name = none := by
  obtain @⟨body, s₁, signature, hp, hs, -⟩ := h
  have hnone : s₁.signatures.find? name = none := hp.signatures_grow.unknown name hn
  have hne : name ≠ f.name := by
    rintro rfl
    rw [hs] at hnone
    cases hnone
  exact (Table.find?_insert_of_ne _ _ hne).trans hnone

theorem FunctionRun.options_eq {f : Function} {s s' : Checker} {t : Typed.Function}
    (h : FunctionRun f s t s') : s'.options = s.options := by
  obtain ⟨hp, -, -⟩ := h
  exact hp.options_eq

theorem FunctionRun.name_eq {f : Function} {s s' : Checker} {t : Typed.Function}
    (h : FunctionRun f s t s') : t.name = f.name := by
  cases h
  rfl

theorem Typed.Expr.CallKnown.later {x : Typed.Expr} {s z : Checker} (h : x.CallKnown s.signatures)
    (hz : s.Later z) : x.CallKnown z.signatures := by
  cases x with
  | call callee arguments parameterTypes callSpan type span =>
    obtain ⟨signature, hs, hp, hl, hc, hr⟩ := h
    obtain ⟨later, hlater, hlast⟩ := hz.signatures _ _ hs
    obtain ⟨hc', hr'⟩ := hlast.settled hc
    exact ⟨later, hlater, hlast.parameters.trans hp, hl, hc', by rwa [hr']⟩
  | literal | var | binary | unary | update | assign | convert => trivial

theorem Typed.Stmt.CallKnown.later {x : Typed.Stmt} {s z : Checker} (h : x.CallKnown s.signatures)
    (hz : s.Later z) : x.CallKnown z.signatures := by
  cases x with
  | call callee arguments parameterTypes span =>
    obtain ⟨signature, hs, hp, hl⟩ := h
    obtain ⟨later, hlater, hlast⟩ := hz.signatures _ _ hs
    exact ⟨later, hlater, hlast.parameters.trans hp, hl⟩
  | declare | assign | branch | loop | breakLoop | continueLoop | returnValue | print | block
  | expression => trivial

theorem Passes.made {scope : Scope} {parameters : List Typed.Parameter} {body : List Stmt}
    {readTypes : Table NumType} {s s' : Checker} {typed : List Typed.Stmt}
    (h : Passes scope parameters body readTypes s typed s') :
    (∀ x ∈ Typed.exprsOfStmts typed, x.CallKnown s'.signatures) ∧
      ∀ x ∈ Typed.partsOfStmts typed, x.CallKnown s'.signatures := by
  obtain ⟨readTypes', s₀, s₁, number, ⟨hrun⟩, -, -, rfl⟩ :=
    h.final (P := fun _ => True) (fun _ _ _ _ _ _ => trivial) trivial
  exact ⟨fun x hx => (hrun.made.1 x hx).callKnown, fun x hx => (hrun.made.2 x hx).callKnown⟩

/-- The returns of a function fit its result. -/
theorem FunctionRun.returns {f : Function} {s s' : Checker} {t : Typed.Function}
    (h : FunctionRun f s t s') (ha : s.Awaits f) :
    (∀ value span, .returnValue (some value) span ∈ Typed.partsOfStmts t.body →
      ∃ r, t.result = some r ∧ value.type.rank ≤ r.rank) ∧
    ∀ span, .returnValue none span ∈ Typed.partsOfStmts t.body → t.result = none := by
  obtain @⟨body, s₁, signature, hp, hs, hr⟩ := h
  -- What is needed at the start of the last pass.
  obtain ⟨readTypes, s₀, s₂, number, hrun, -, ⟨hgrow, hfixed⟩, rfl⟩ :=
    hp.final (P := fun c => s.signatures.Grows c.signatures ∧ c.FixedHave f.name)
      (fun _ _ _ _ hpass hc => ⟨hc.1.trans hpass.signatures_grow, hpass.fixedHave hc.2⟩)
      ⟨.refl _, ha.fixed⟩
  have hend := hrun.fixedHave hfixed
  have hexclusive : s₂.bareReturn = true → s₂.valuedReturn = false := by
    have hstart : (s₀.fresh (.forFunction f.name) readTypes).Returns :=
      ⟨fun h => (by cases h), fun h => (by cases h)⟩
    have hfix : ∀ g, (s₀.fresh (.forFunction f.name) readTypes).scope.function = some g →
        (s₀.fresh (.forFunction f.name) readTypes).FixedHave g := by
      intro g hg
      cases hg
      exact hfixed
    exact (hrun.advance.returns hstart hfix).bare
  obtain ⟨hrun⟩ := hrun
  have hin := s₀.entered_steps (N := fun _ => True) (.forFunction f.name) readTypes
    f.typedParameters fun _ _ => trivial
  refine ⟨fun value span hmem => ?_, fun span hmem => ?_⟩
  · obtain ⟨g, found, hg, hfound, hres, hle⟩ := (hrun.made.2 _ hmem).returned
    cases hin.extends.function.symm.trans hg
    have hsame : found = signature := Option.some.inj (hfound.symm.trans hs)
    subst hsame
    obtain ⟨r, hr⟩ := Option.isSome_iff_exists.mp (hres.elim (hend found hs) id)
    refine ⟨r, hr, ?_⟩
    rwa [hr] at hle
  · obtain ⟨hbare, g, hg, hnone⟩ := (hrun.made.2 _ hmem).returnedBare
    cases hin.extends.function.symm.trans hg
    cases hres : signature.result with
    | none => rfl
    | some r =>
      exfalso
      cases hd : f.result with
      | none =>
        have hvalued := hr hd (by rw [hres]; rfl)
        cases (hexclusive hbare).symm.trans hvalued
      | some declared =>
        obtain ⟨first, hfirst, -, -, hsome⟩ := ha.known
        obtain ⟨later, hl, hg⟩ := (hgrow.trans hin.extends.signatures).known _ _ hfirst
        have hthere := hg.isSome (hsome (by rw [hd]; rfl))
        rw [hnone later hl] at hthere
        cases hthere

/-- What holds at the end `z` of a program of a function that has been checked. -/
structure Typed.Function.Checked (t : Typed.Function) (z : Checker) : Prop where
  signature : ∃ signature, z.signatures.find? t.name = some signature ∧
    signature.parameters = t.parameters.map (·.type) ∧ signature.result = t.result
  exprs : ∀ x ∈ exprsOfStmts t.body, x.CallKnown z.signatures
  stmts : ∀ x ∈ partsOfStmts t.body, x.CallKnown z.signatures
  returned : ∀ value span, .returnValue (some value) span ∈ partsOfStmts t.body →
    ∃ r, t.result = some r ∧ value.type.rank ≤ r.rank
  returnedBare : ∀ span, .returnValue none span ∈ partsOfStmts t.body → t.result = none
  settled : (t.storage.entries = [] → ∀ u, .resultPinned t.name u ∈ z.log → t.result = some u) →
    ∀ x ∈ exprsOfStmts t.body, x.CallSettled z.signatures
  outgrown : t.storage.entries = [] → ∀ u, .resultPinned t.name u ∈ z.log → t.result ≠ some u →
    ReturnsCall t.name u (partsOfStmts t.body)

/-- The result of a function that has been checked is what callers know of it in the end. -/
theorem FunctionRun.signature {f : Function} {s s' z : Checker} {t : Typed.Function}
    (h : FunctionRun f s t s') (ha : s.Awaits f) (hz : s'.Later z) :
    ∃ signature, z.signatures.find? t.name = some signature ∧
      signature.parameters = t.parameters.map (·.type) ∧ signature.result = t.result := by
  obtain @⟨body, s₁, signature, hp, hs, hr⟩ := h
  obtain ⟨first, hfirst, hparams, -, -⟩ := ha.known
  obtain ⟨later, hl, hg⟩ := hp.signatures_grow.known _ _ hfirst
  rw [hs] at hl
  cases hl
  obtain ⟨last, hlast, hlasts⟩ := hz.signatures f.name _ (Table.find?_insert_self _ _ _)
  refine ⟨last, hlast, ?_, (hlasts.settled (Bool.or_true _)).2⟩
  rw [hlasts.parameters]
  change signature.parameters = f.typedParameters.map (·.type)
  rw [hg.parameters, hparams, Function.typedParameters, List.map_map]
  rfl

theorem FunctionRun.checked {f : Function} {s s' z : Checker} {t : Typed.Function}
    (h : FunctionRun f s t s') (ha : s.Awaits f) (hz : s'.Later z) : t.Checked z := by
  have hsig := h.signature ha hz
  have hreturns := h.returns ha
  obtain @⟨body, s₁, signature, hp, hs, hr⟩ := h
  have hlater := (Checker.checked_later hs).trans hz
  have hstart : ∀ u, .resultPinned f.name u ∈ (s.reported (.checkingFunction f.name)).log →
      .resultPinned f.name u ∈ s.log := Checker.pinned_of_reported (by simp) f.name
  refine ⟨hsig, fun x hx => (hp.made.1 x hx).later hlater, fun x hx => (hp.made.2 x hx).later hlater,
    hreturns.1, hreturns.2, fun hsettled => ?_, fun hempty u hu hne => ?_⟩
  · -- The body of a single pass pins its own function only to the final result.
    refine hp.callsSettled ha.unfinished hlater ?_ ?_
    · rintro g hg
      cases hg
      exact fun u hu => ha.pins.pinsFix u (hstart u hu)
    · rintro g hg hempty u hu
      cases hg
      obtain ⟨last, hlast, -, hresult⟩ := hsig
      exact ⟨last, hlast, hresult.trans (hsettled hempty u (hlater.log _ hu))⟩
  · -- The one pass keeps every pin but those in the values of its returns.
    have hhere : .resultPinned f.name u ∈ s₁.log :=
      hz.pins f.name _ u (Table.find?_insert_self _ _ _) (Bool.or_true _) hu
    cases hp with
    | again h hdiffer hrest =>
      have hnone := h.empty_iff.mpr (hrest.empty_iff.mp hempty)
      rw [Table.agrees, Table.isWithin, hnone] at hdiffer
      cases hdiffer
    | last h hagrees =>
      have hpins := h.pinsHold (f := f.name) (fun _ => id) fun v hv => .inr (ha.pins.fixedAt (hstart v hv))
      obtain hcall | ⟨found, hfound, -, hresult⟩ :=
        hpins u (Checker.pinned_of_reported (by simp) _ u hhere)
      · exact hcall
      · cases hs.symm.trans hfound
        exact absurd hresult hne

end Numlet
