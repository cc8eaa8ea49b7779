import Numlet.Proofs.Check.Advance

/-!
Along the steps of a checker storage, signatures, flags and log only grow, and the context of a body
stays.
-/
namespace Numlet
open Checking

variable {N : String → Prop}

/-- What can become of a signature while bodies are checked. -/
structure Signature.Grows (a b : Signature) : Prop where
  parameters : b.parameters = a.parameters
  checked : b.checked = a.checked
  fixed : a.resultFixed = true → b.resultFixed = true
  result : ∀ t, a.result = some t → ∃ u, b.result = some u ∧ t.rank ≤ u.rank

theorem Signature.Grows.refl (a : Signature) : a.Grows a :=
  ⟨rfl, rfl, id, fun t h => ⟨t, h, Nat.le_refl _⟩⟩

theorem Signature.Grows.trans {a b c : Signature} (h₁ : a.Grows b) (h₂ : b.Grows c) : a.Grows c where
  parameters := h₂.parameters.trans h₁.parameters
  checked := h₂.checked.trans h₁.checked
  fixed h := h₂.fixed (h₁.fixed h)
  result t ht := by
    obtain ⟨u, hu, htu⟩ := h₁.result t ht
    obtain ⟨v, hv, huv⟩ := h₂.result u hu
    exact ⟨v, hv, Nat.le_trans htu huv⟩

/-- The same functions are known, each by a signature that has grown. -/
structure Table.Grows (a b : Table Signature) : Prop where
  known : ∀ name signature, a.find? name = some signature →
    ∃ later, b.find? name = some later ∧ signature.Grows later
  unknown : ∀ name, a.find? name = none → b.find? name = none

theorem Table.Grows.refl (a : Table Signature) : a.Grows a :=
  ⟨fun _ signature h => ⟨signature, h, .refl _⟩, fun _ h => h⟩

theorem Table.Grows.trans {a b c : Table Signature} (h₁ : a.Grows b) (h₂ : b.Grows c) :
    a.Grows c where
  known name signature h := by
    obtain ⟨later, hl, hg⟩ := h₁.known name signature h
    obtain ⟨last, hl', hg'⟩ := h₂.known name later hl
    exact ⟨last, hl', hg.trans hg'⟩
  unknown name h := h₂.unknown name (h₁.unknown name h)

theorem Table.grows_insert {a : Table Signature} {name : String} {signature later : Signature}
    (h : a.find? name = some signature) (hg : signature.Grows later) :
    a.Grows (a.insert name later) where
  known other found hf := by
    by_cases ho : other = name
    · subst ho
      rw [h] at hf
      cases hf
      exact ⟨later, Table.find?_insert_self _ _ _, hg⟩
    · exact ⟨found, by rw [Table.find?_insert_of_ne _ _ ho, hf], .refl _⟩
  unknown other hf := by
    have ho : other ≠ name := by
      rintro rfl
      rw [h] at hf
      cases hf
    rw [Table.find?_insert_of_ne _ _ ho, hf]

/-- What checking inside one body lets grow, whatever scope it is in. -/
structure Checker.Grows (s s' : Checker) : Prop where
  options : s'.options = s.options
  readTypes : s'.readTypes = s.readTypes
  storage : s.storage.Below s'.storage
  declarations : ∀ name n, s.declarations.find? name = some n →
    ∃ m, s'.declarations.find? name = some m ∧ n ≤ m
  signatures : s.signatures.Grows s'.signatures
  bareReturn : s.bareReturn = true → s'.bareReturn = true
  valuedReturn : s.valuedReturn = true → s'.valuedReturn = true
  log : ∀ event ∈ s.log, event ∈ s'.log

/-- What every finished stretch of checking keeps or lets grow. -/
structure Checker.Extends (s s' : Checker) : Prop extends s.Grows s' where
  function : s'.scope.function = s.scope.function
  inLoop : s'.scope.inLoop = s.scope.inLoop

theorem Checker.Grows.refl (s : Checker) : s.Grows s :=
  ⟨rfl, rfl, .refl _, fun _ n h => ⟨n, h, Nat.le_refl _⟩, .refl _, id, id, fun _ h => h⟩

theorem Checker.Grows.trans {s s₁ s₂ : Checker} (h₁ : s.Grows s₁) (h₂ : s₁.Grows s₂) :
    s.Grows s₂ where
  options := h₂.options.trans h₁.options
  readTypes := h₂.readTypes.trans h₁.readTypes
  storage := h₁.storage.trans h₂.storage
  declarations name n h := by
    obtain ⟨m, hm, hnm⟩ := h₁.declarations name n h
    obtain ⟨k, hk, hmk⟩ := h₂.declarations name m hm
    exact ⟨k, hk, Nat.le_trans hnm hmk⟩
  signatures := h₁.signatures.trans h₂.signatures
  bareReturn h := h₂.bareReturn (h₁.bareReturn h)
  valuedReturn h := h₂.valuedReturn (h₁.valuedReturn h)
  log event h := h₂.log event (h₁.log event h)

theorem Checker.Extends.refl (s : Checker) : s.Extends s :=
  { Grows.refl s with function := rfl, inLoop := rfl }

theorem Checker.Extends.trans {s s₁ s₂ : Checker} (h₁ : s.Extends s₁) (h₂ : s₁.Extends s₂) :
    s.Extends s₂ where
  toGrows := h₁.toGrows.trans h₂.toGrows
  function := h₂.function.trans h₁.function
  inLoop := h₂.inLoop.trans h₁.inLoop

namespace Checker

theorem below_recorded (s : Checker) (slot : String) (type : NumType) :
    s.storage.Below (s.recorded slot type).storage := by
  apply Table.below_insert
  intro a ha
  rw [ha, NumType.joinKnown_some]
  exact NumType.rank_le_join_left _ _

theorem mem_log_recorded {s : Checker} {event : Event} (h : event ∈ s.log) (slot : String)
    (type : NumType) : event ∈ (s.recorded slot type).log := by
  unfold recorded
  dsimp only
  split
  · exact Array.mem_push_of_mem _ h
  · exact h

theorem extends_recorded (s : Checker) (slot : String) (type : NumType) :
    s.Extends (s.recorded slot type) where
  options := rfl
  readTypes := rfl
  function := rfl
  inLoop := rfl
  storage := s.below_recorded slot type
  declarations _ n h := ⟨n, h, Nat.le_refl _⟩
  signatures := .refl _
  bareReturn := id
  valuedReturn := id
  log _ h := mem_log_recorded h slot type

end Checker

@[simp] theorem Scope.function_retype (s : Scope) (name : String) (type : NumType) :
    (s.retype name type).function = s.function := by
  unfold Scope.retype
  split <;> rfl

@[simp] theorem Scope.inLoop_retype (s : Scope) (name : String) (type : NumType) :
    (s.retype name type).inLoop = s.inLoop := by
  unfold Scope.retype
  split <;> rfl

theorem Signature.grows_pinned (signature : Signature) :
    signature.Grows
      { signature with result := some (signature.result.getD .i32), resultFixed := true } where
  parameters := rfl
  checked := rfl
  fixed _ := rfl
  result t ht := ⟨t, by rw [ht]; rfl, Nat.le_refl _⟩

theorem Step.extends {s s' : Checker} (h : Step N s s') : s.Extends s' := by
  cases h with
  | report he => exact { Checker.Extends.refl s with log := fun _ h => Array.mem_push_of_mem _ h }
  | @assign name v value type hv ht =>
    have hr := (s.withScope (s.scope.retype name type)).extends_recorded v.slot type
    exact { hr with
      function := hr.function.trans (Scope.function_retype _ _ _)
      inLoop := hr.inLoop.trans (Scope.inLoop_retype _ _ _) }
  | @declare name type fixed hn =>
    refine { Checker.extends_recorded { s with
      declarations := s.declarations.insert name ((s.declarations.find? name).getD 0 + 1)
      scope := s.scope.declare name (s.nextSlot name) type fixed } (s.nextSlot name) type with
      declarations := ?_ }
    intro other n hd
    change ∃ m, (s.declarations.insert name _).find? other = some m ∧ n ≤ m
    by_cases ho : other = name
    · subst ho
      exact ⟨_, Table.find?_insert_self _ _ _, by rw [hd]; exact Nat.le_succ n⟩
    · exact ⟨n, by rw [Table.find?_insert_of_ne _ _ ho, hd], Nat.le_refl _⟩
  | pin hs hc =>
    exact { Checker.Extends.refl s with
      signatures := Table.grows_insert hs (Signature.grows_pinned _)
      log := fun _ h => Array.mem_push_of_mem _ h }

theorem Steps.extends {s s' : Checker} (h : Steps N s s') : s.Extends s' := by
  induction h with
  | refl => exact .refl s
  | tail _ hs ih => exact ih.trans hs.extends

/-- Expressions do not touch an open result but to pin it. -/
theorem Steps.result {s s' : Checker} (h : Steps N s s') {f : String} {signature : Signature}
    (hs : s.signatures.find? f = some signature) :
    ∃ later, s'.signatures.find? f = some later ∧ (later.result = signature.result ∨
      later.result = some (signature.result.getD .i32)) := by
  induction h with
  | refl => exact ⟨signature, hs, .inl rfl⟩
  | tail _ step ih =>
    obtain ⟨later, hl, hr⟩ := ih
    cases step with
    | report | assign | declare => exact ⟨later, hl, hr⟩
    | @pin callee found hf hc =>
      by_cases hn : f = callee
      · subst hn
        rw [hl] at hf
        cases hf
        refine ⟨_, Table.find?_insert_self _ _ _, .inr ?_⟩
        obtain hr | hr := hr <;> simp [hr]
      · exact ⟨later, by rw [← hl]; exact Table.find?_insert_of_ne _ _ hn, hr⟩

/-- Setting an inferred result lets it grow: the result before the value is no wider than the new
one, nor is what a call in the value may have pinned. -/
theorem Steps.grows_inferred {s s₁ : Checker} (h : Steps N s s₁) {f : String}
    {signature current : Signature} (hs : s.signatures.find? f = some signature)
    (hc : s₁.signatures.find? f = some current) (type : NumType) :
    s₁.Grows (s₁.withSignature f
      { current with result := some (NumType.joinKnown signature.result (some type)) }) := by
  have hg : current.Grows
      { current with result := some (NumType.joinKnown signature.result (some type)) } := by
    refine ⟨rfl, rfl, id, fun t ht => ⟨_, rfl, ?_⟩⟩
    obtain ⟨later, hl, hr⟩ := h.result hs
    rw [hc] at hl
    cases hl
    rw [ht] at hr
    obtain hr | hr := hr
    · rw [← hr]
      exact NumType.rank_le_join_left _ _
    · rw [Option.some.inj hr]
      exact NumType.rank_le_join_left _ _
  exact { Checker.Grows.refl s₁ with signatures := Table.grows_insert hc hg }

theorem Advance.extends {s s' : Checker} (h : Advance N s s') : s.Extends s' := by
  induction h with
  | steps h => exact h.extends
  | trans _ _ ih₁ ih₂ => exact ih₁.trans ih₂
  | @bare s _ _ hf hs hr => exact { Checker.Extends.refl s with bareReturn := fun _ => rfl }
  | @valued s _ _ hf hs hr hb => exact { Checker.Extends.refl s with valuedReturn := fun _ => rfl }
  | infer hf hs hx h hc =>
    exact ⟨h.extends.toGrows.trans (h.grows_inferred hs hc _), h.extends.function, h.extends.inLoop⟩
  | inner hb hf h ih => exact { ih with function := rfl, inLoop := rfl }

end Numlet
