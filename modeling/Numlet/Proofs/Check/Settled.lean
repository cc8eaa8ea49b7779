import Numlet.Proofs.Check.Bindings

/-!
Results that no longer change. A result that is fixed, or whose function has been checked, keeps its
value until the end; a result becomes fixed during checking only when a call pins it.
-/
namespace Numlet
open Checking

variable {N : String → Prop}

/-- Whether the result of a function is what it will be in the end. -/
def Signature.settled (s : Signature) : Bool := s.resultFixed || s.checked

/-- What can become of a signature between any two points of a program. -/
structure Signature.Lasts (a b : Signature) : Prop where
  parameters : b.parameters = a.parameters
  settled : a.settled = true → b.settled = true ∧ b.result = a.result
  result : ∀ t, a.result = some t → ∃ u, b.result = some u ∧ t.rank ≤ u.rank

theorem Signature.Lasts.refl (a : Signature) : a.Lasts a :=
  ⟨rfl, fun h => ⟨h, rfl⟩, fun t h => ⟨t, h, Nat.le_refl _⟩⟩

theorem Signature.Lasts.trans {a b c : Signature} (h₁ : a.Lasts b) (h₂ : b.Lasts c) : a.Lasts c where
  parameters := h₂.parameters.trans h₁.parameters
  settled h := by
    obtain ⟨hb, hr⟩ := h₁.settled h
    obtain ⟨hc, hr'⟩ := h₂.settled hb
    exact ⟨hc, hr'.trans hr⟩
  result t ht := by
    obtain ⟨u, hu, htu⟩ := h₁.result t ht
    obtain ⟨v, hv, huv⟩ := h₂.result u hu
    exact ⟨v, hv, Nat.le_trans htu huv⟩

/-- `z` comes after `s` in the checking of a program. -/
structure Checker.Later (s z : Checker) : Prop where
  signatures : ∀ name signature, s.signatures.find? name = some signature →
    ∃ later, z.signatures.find? name = some later ∧ signature.Lasts later
  log : ∀ event ∈ s.log, event ∈ z.log
  pins : ∀ f signature t, s.signatures.find? f = some signature → signature.settled = true →
    .resultPinned f t ∈ z.log → .resultPinned f t ∈ s.log

namespace Checker.Later

theorem refl (s : Checker) : s.Later s :=
  ⟨fun _ signature h => ⟨signature, h, .refl _⟩, fun _ h => h, fun _ _ _ _ _ h => h⟩

theorem trans {s s₁ z : Checker} (h₁ : s.Later s₁) (h₂ : s₁.Later z) : s.Later z where
  signatures name signature h := by
    obtain ⟨later, hl, hg⟩ := h₁.signatures name signature h
    obtain ⟨last, hl', hg'⟩ := h₂.signatures name later hl
    exact ⟨last, hl', hg.trans hg'⟩
  log event h := h₂.log event (h₁.log event h)
  pins f signature t hs hc h := by
    obtain ⟨later, hl, hg⟩ := h₁.signatures f signature hs
    exact h₁.pins f signature t hs hc (h₂.pins f later t hl (hg.settled hc).1 h)

end Checker.Later

/-- The function whose body is being checked does not count as checked. -/
def Checker.Unfinished (s : Checker) : Prop :=
  ∀ f signature, s.scope.function = some f → s.signatures.find? f = some signature →
    signature.checked = false

theorem Checker.Unfinished.of_extends {s s' : Checker} (h : s.Unfinished) (he : s.Extends s') :
    s'.Unfinished := by
  intro f signature hf hs
  rw [he.function] at hf
  cases hk : s.signatures.find? f with
  | none =>
    rw [he.signatures.unknown f hk] at hs
    cases hs
  | some first =>
    obtain ⟨later, hl, hg⟩ := he.signatures.known f first hk
    rw [hs] at hl
    cases hl
    rw [hg.checked]
    exact h f first hf hk

theorem Signature.Grows.lasts {a b : Signature} (h : a.Grows b) (hc : a.settled = true → b = a) :
    a.Lasts b where
  parameters := h.parameters
  settled ha := by
    rw [hc ha]
    exact ⟨ha, rfl⟩
  result := h.result

theorem Checker.pinned_of_reported {s : Checker} {event : Event}
    (he : ∀ f t, event ≠ .resultPinned f t) (f : String) (t : NumType)
    (h : .resultPinned f t ∈ (s.reported event).log) : .resultPinned f t ∈ s.log := by
  obtain h | h := Array.mem_push.mp h
  · exact h
  · exact absurd h.symm (he f t)

theorem Checker.pinned_of_recorded {s : Checker} {slot : String} {type : NumType} (f : String)
    (t : NumType) (h : .resultPinned f t ∈ (s.recorded slot type).log) : .resultPinned f t ∈ s.log := by
  unfold recorded at h
  dsimp only at h
  split at h
  · exact pinned_of_reported (by simp) f t h
  · exact h

theorem Checker.reported_later {s : Checker} {event : Event}
    (he : ∀ f t, event ≠ .resultPinned f t) : s.Later (s.reported event) where
  signatures _ signature h := ⟨signature, h, .refl _⟩
  log _ h := Array.mem_push_of_mem _ h
  pins f _ t _ _ h := pinned_of_reported he f t h

theorem Checker.recorded_later (s : Checker) (slot : String) (type : NumType) :
    s.Later (s.recorded slot type) where
  signatures _ signature h := ⟨signature, h, .refl _⟩
  log _ h := mem_log_recorded h slot type
  pins f _ t _ _ h := pinned_of_recorded f t h

theorem Step.later {s s' : Checker} (h : Step N s s') : s.Later s' := by
  cases h with
  | report he => exact Checker.reported_later he
  | @assign name v value type hv ht =>
    have hr := Checker.recorded_later (s.withScope (s.scope.retype name type)) v.slot type
    exact ⟨hr.signatures, hr.log, hr.pins⟩
  | @declare name type fixed hn =>
    have hr := Checker.recorded_later { s with
      declarations := s.declarations.insert name ((s.declarations.find? name).getD 0 + 1)
      scope := s.scope.declare name (s.nextSlot name) type fixed } (s.nextSlot name) type
    exact ⟨hr.signatures, hr.log, hr.pins⟩
  | @pin callee pinned hs hc =>
    have hopen : ∀ signature, s.signatures.find? callee = some signature →
        signature.settled ≠ true := by
      intro signature hf
      rw [hs] at hf
      cases hf
      rw [Signature.settled, hc]
      exact Bool.false_ne_true
    refine ⟨?_, fun _ h => Array.mem_push_of_mem _ h, ?_⟩
    · intro name signature hn
      by_cases ho : name = callee
      · subst ho
        obtain ⟨later, hl, hg⟩ := (Step.pin (N := N) hs hc).extends.signatures.known _ _ hn
        exact ⟨later, hl, hg.lasts fun hset => absurd hset (hopen _ hn)⟩
      · exact ⟨signature, (Table.find?_insert_of_ne _ _ ho).trans hn, .refl _⟩
    · intro f signature t hf hset h
      obtain h | h := Array.mem_push.mp h
      · exact h
      · cases h
        exact absurd hset (hopen _ hf)

theorem Steps.later {s s' : Checker} (h : Steps N s s') : s.Later s' := by
  induction h with
  | refl => exact .refl s
  | tail _ hs ih => exact ih.trans hs.later

theorem Advance.later {s s' : Checker} (h : Advance N s s') (ho : s.Unfinished) : s.Later s' := by
  induction h with
  | steps h => exact h.later
  | trans h₁ _ ih₁ ih₂ => exact (ih₁ ho).trans (ih₂ (ho.of_extends h₁.extends))
  | @bare s | @valued s => exact ⟨(Checker.Later.refl s).signatures, fun _ h => h, fun _ _ _ _ _ h => h⟩
  | @infer s s₁ f signature current type hf hs hx h hc =>
    have hl := h.later
    refine ⟨?_, hl.log, hl.pins⟩
    intro name first hn
    by_cases hne : name = f
    · -- The function itself is neither fixed nor checked.
      subst hne
      have hg := (@Advance.infer N s s₁ name signature current type hf hs hx h hc).extends.signatures
      obtain ⟨later, hfound, hgrow⟩ := hg.known name first hn
      refine ⟨later, hfound, hgrow.lasts fun hset => ?_⟩
      rw [hs] at hn
      cases hn
      rw [Signature.settled, hx, ho _ _ hf hs] at hset
      cases hset
    · obtain ⟨mid, hmid, hlast⟩ := hl.signatures name first hn
      exact ⟨mid, (Table.find?_insert_of_ne _ _ hne).trans hmid, hlast⟩
  | inner hb hf h ih =>
    have hi := ih (fun g signature hg hs => ho g signature (hf ▸ hg) hs)
    exact ⟨hi.signatures, hi.log, hi.pins⟩

/-- The result of `f` is declared or pinned. -/
def Checker.Fixes (s : Checker) (f : String) : Prop :=
  ∃ signature, s.signatures.find? f = some signature ∧ signature.resultFixed = true

theorem Checker.Fixes.of_grows {s s' : Checker} {f : String} (h : s.Fixes f)
    (hg : s.signatures.Grows s'.signatures) : s'.Fixes f := by
  obtain ⟨signature, hs, hx⟩ := h
  obtain ⟨later, hl, hgrow⟩ := hg.known f signature hs
  exact ⟨later, hl, hgrow.fixed hx⟩

/-- A result that becomes fixed has been pinned to what it is now. -/
theorem Steps.pinned {s s' : Checker} (h : Steps N s s') {f : String} {current : Signature}
    (hf : ¬ s.Fixes f) (hs : s'.signatures.find? f = some current)
    (hx : current.resultFixed = true) :
    ∃ t, .resultPinned f t ∈ s'.log ∧ current.result = some t := by
  induction h with
  | refl => exact absurd ⟨current, hs, hx⟩ hf
  | tail _ step ih =>
    have hlog := step.extends.log
    cases step with
    | report | assign | declare =>
      obtain ⟨t, ht, hr⟩ := ih hs
      exact ⟨t, hlog _ ht, hr⟩
    | @pin callee pinned hp hc =>
      by_cases hn : f = callee
      · subst hn
        rw [Checker.pinned, Checker.withSignature, Table.find?_insert_self] at hs
        cases hs
        exact ⟨_, Array.mem_push_self, rfl⟩
      · obtain ⟨t, ht, hr⟩ := ih ((Table.find?_insert_of_ne _ _ hn).symm.trans hs)
        exact ⟨t, hlog _ ht, hr⟩

theorem Advance.pinned {s s' : Checker} (h : Advance N s s') {f : String} (hf : ¬ s.Fixes f)
    (hs : s'.Fixes f) : ∃ t, .resultPinned f t ∈ s'.log := by
  induction h with
  | steps h =>
    obtain ⟨current, hc, hx⟩ := hs
    obtain ⟨t, ht, -⟩ := h.pinned hf hc hx
    exact ⟨t, ht⟩
  | @trans s s₁ s₂ h₁ h₂ ih₁ ih₂ =>
    by_cases hmid : s₁.Fixes f
    · obtain ⟨t, ht⟩ := ih₁ hf hmid
      exact ⟨t, h₂.extends.log _ ht⟩
    · exact ih₂ hmid hs
  | bare | valued => exact absurd hs hf
  | @infer s s₁ g signature current type hg hsig hx h hc =>
    obtain ⟨found, hfound, hfixed⟩ := hs
    by_cases hn : f = g
    · subst hn
      rw [Checker.withSignature, Table.find?_insert_self] at hfound
      cases hfound
      obtain ⟨t, ht, -⟩ := h.pinned hf hc hfixed
      exact ⟨t, ht⟩
    · obtain ⟨t, ht, -⟩ := h.pinned hf ((Table.find?_insert_of_ne _ _ hn).symm.trans hfound) hfixed
      exact ⟨t, ht⟩
  | inner hb hfun h ih => exact ih hf hs

/-- What is pinned is fixed. -/
def Checker.PinsFix (s : Checker) (f : String) : Prop := ∀ t, .resultPinned f t ∈ s.log → s.Fixes f

/-- The result of `f` is fixed at `t`. -/
def Checker.FixedAt (s : Checker) (f : String) (t : NumType) : Prop :=
  ∃ signature, s.signatures.find? f = some signature ∧ signature.resultFixed = true ∧
    signature.result = some t

theorem Checker.FixedAt.of_insert {s s' : Checker} {f g : String} {t : NumType}
    {signature : Signature} (h : s.FixedAt f t) (hn : f ≠ g)
    (hs : s'.signatures = s.signatures.insert g signature) : s'.FixedAt f t := by
  obtain ⟨found, hfound, hx⟩ := h
  refine ⟨found, ?_, hx⟩
  rw [hs]
  exact (Table.find?_insert_of_ne _ _ hn).trans hfound

/-- What is pinned is fixed at the type of the pin, the types in `E` apart. -/
def Checker.PinsHold (s : Checker) (f : String) (E : NumType → Prop) : Prop :=
  ∀ t, .resultPinned f t ∈ s.log → E t ∨ s.FixedAt f t

theorem Checker.PinsHold.fixedAt {s : Checker} {f : String} {t : NumType}
    (h : s.PinsHold f fun _ => False) (ht : .resultPinned f t ∈ s.log) : s.FixedAt f t :=
  (h t ht).resolve_left id

theorem Checker.PinsHold.pinsFix {s : Checker} {f : String} (h : s.PinsHold f fun _ => False) :
    s.PinsFix f := by
  intro t ht
  obtain ⟨signature, hs, hx, -⟩ := h.fixedAt ht
  exact ⟨signature, hs, hx⟩

section PinsHold

variable {s s' : Checker} {f : String} {E : NumType → Prop}

theorem Step.pinsHold (h : Step N s s') (hp : s.PinsHold f E) : s'.PinsHold f E := by
  intro t ht
  cases h with
  | report he => exact hp t (Checker.pinned_of_reported he f t ht)
  | assign | declare => exact hp t (Checker.pinned_of_recorded f t ht)
  | @pin callee signature hs hc =>
    obtain ht | ht := Array.mem_push.mp ht
    · refine (hp t ht).imp_right fun hfixed => hfixed.of_insert (g := callee) ?_ rfl
      -- A result that has been pinned is not pinned again.
      rintro rfl
      obtain ⟨found, hfound, hx, -⟩ := hfixed
      rw [hs] at hfound
      cases hfound
      rw [hx, Bool.true_or] at hc
      cases hc
    · cases ht
      exact .inr ⟨_, Table.find?_insert_self _ _ _, rfl, rfl⟩

theorem Steps.pinsHold (h : Steps N s s') (hp : s.PinsHold f E) : s'.PinsHold f E := by
  induction h with
  | refl => exact hp
  | tail _ step ih => exact step.pinsHold ih

/-- The results of other functions than the current one stay as pinned. -/
theorem Advance.pinsHold (h : Advance N s s') (hp : s.PinsHold f E)
    (hf : s.scope.function ≠ some f) : s'.PinsHold f E := by
  induction h with
  | steps h => exact h.pinsHold hp
  | trans h₁ h₂ ih₁ ih₂ => exact ih₂ (ih₁ hp hf) (by rwa [h₁.extends.function])
  | bare | valued => exact hp
  | @infer s s₁ g signature current type hg hsig hx h hc =>
    have hn : f ≠ g := by
      rintro rfl
      exact hf hg
    exact fun t ht => (h.pinsHold hp t ht).imp_right fun hfixed => hfixed.of_insert hn rfl
  | @inner s s₁ scope hb hfun h ih => exact ih hp (by rwa [Checker.withScope, hfun])

end PinsHold

theorem Step.pinsFix {s s' : Checker} (h : Step N s s') {f : String} (hp : s.PinsFix f) :
    s'.PinsFix f := by
  intro t ht
  have hg := h.extends.signatures
  cases h with
  | report he => exact (hp t (Checker.pinned_of_reported he f t ht)).of_grows hg
  | assign | declare => exact (hp t (Checker.pinned_of_recorded f t ht)).of_grows hg
  | pin hs hc =>
    obtain ht | ht := Array.mem_push.mp ht
    · exact (hp t ht).of_grows hg
    · cases ht
      exact ⟨_, Table.find?_insert_self _ _ _, rfl⟩

theorem Steps.pinsFix {s s' : Checker} (h : Steps N s s') {f : String} (hp : s.PinsFix f) :
    s'.PinsFix f := by
  induction h with
  | refl => exact hp
  | tail _ step ih => exact step.pinsFix ih

theorem Advance.pinsFix {s s' : Checker} (h : Advance N s s') {f : String} (hp : s.PinsFix f) :
    s'.PinsFix f := by
  induction h with
  | steps h => exact h.pinsFix hp
  | trans _ _ ih₁ ih₂ => exact ih₂ (ih₁ hp)
  | bare | valued => exact hp
  | infer hf hs hx h hc =>
    exact fun t ht => (h.pinsFix hp t ht).of_grows (h.grows_inferred hs hc _).signatures
  | inner hb hfun h ih => exact ih hp

end Numlet
