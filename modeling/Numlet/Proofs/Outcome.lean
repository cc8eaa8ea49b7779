/-!
Runs of computations that keep a state and may fail. A run of a sequence succeeds exactly when its
parts do, one after the other, and fails with the first failure.
-/
namespace Numlet

variable {ε σ α β : Type}

theorem bind_eq_ok {x : EStateM ε σ α} {f : α → EStateM ε σ β} {s s' : σ} {b : β} :
    (x >>= f) s = .ok b s' ↔ ∃ a s₁, x s = .ok a s₁ ∧ f a s₁ = .ok b s' := by
  change EStateM.bind x f s = _ ↔ _
  unfold EStateM.bind
  cases x s with
  | ok a s₁ =>
    constructor
    · intro h
      exact ⟨a, s₁, rfl, h⟩
    · rintro ⟨_, _, ⟨⟩, h⟩
      exact h
  | error d s₁ => simp

theorem bind_of_ok {x : EStateM ε σ α} {f : α → EStateM ε σ β} {s s₁ : σ} {a : α}
    (h : x s = .ok a s₁) : (x >>= f) s = f a s₁ := by
  change EStateM.bind x f s = _
  unfold EStateM.bind
  rw [h]

theorem bind_of_error {x : EStateM ε σ α} {f : α → EStateM ε σ β} {s s₁ : σ} {d : ε}
    (h : x s = .error d s₁) : (x >>= f) s = .error d s₁ := by
  change EStateM.bind x f s = _
  unfold EStateM.bind
  rw [h]

theorem map_eq_ok {x : EStateM ε σ α} {f : α → β} {s s' : σ} {b : β} :
    (f <$> x) s = .ok b s' ↔ ∃ a, x s = .ok a s' ∧ f a = b := by
  change EStateM.map f x s = _ ↔ _
  unfold EStateM.map
  cases x s with
  | ok a s₁ =>
    constructor
    · rintro ⟨⟩
      exact ⟨a, rfl, rfl⟩
    · rintro ⟨_, ⟨⟩, rfl⟩
      rfl
  | error d s₁ => simp

@[simp] theorem pure_eq_ok {a b : α} {s s' : σ} :
    (pure a : EStateM ε σ α) s = .ok b s' ↔ a = b ∧ s = s' := by
  change EStateM.Result.ok a s = _ ↔ _
  simp

@[simp] theorem get_eq_ok {s t s' : σ} :
    (get : EStateM ε σ σ) s = .ok t s' ↔ s = t ∧ s = s' := by
  change EStateM.Result.ok s s = _ ↔ _
  simp

@[simp] theorem modify_eq_ok {f : σ → σ} {s s' : σ} {u : PUnit} :
    (modify f : EStateM ε σ PUnit) s = .ok u s' ↔ f s = s' := by
  change EStateM.Result.ok PUnit.unit (f s) = _ ↔ _
  simp

/-- The state that a run ends in. -/
def finalState : EStateM.Result ε σ α → σ
  | .ok _ s | .error _ s => s

/-- An outcome that is evaluated and found to have a property. -/
theorem exists_ok_of_decide {α ε : Type} {P : α → Prop} [DecidablePred P] {x : Except ε α}
    (h : (match x with | .ok a => decide (P a) | .error _ => false) = true) :
    ∃ a, x = .ok a ∧ P a := by
  cases x with
  | ok a => exact ⟨a, rfl, of_decide_eq_true h⟩
  | error d => cases h

/-- A failure that is evaluated and found to be the given one. -/
theorem eq_error_of_decide {α ε : Type} [DecidableEq ε] {x : Except ε α} {e : ε}
    (h : (match x with | .ok _ => false | .error d => decide (d = e)) = true) : x = .error e := by
  cases x with
  | ok a => cases h
  | error d => rw [of_decide_eq_true h]

/-- A run whose end passes a test. -/
theorem exists_run_of_decide {P : α → σ → Prop} [∀ a s, Decidable (P a s)] {x : EStateM.Result ε σ α}
    (h : (match x with | .ok a s => decide (P a s) | .error _ _ => false) = true) :
    ∃ a s, x = .ok a s ∧ P a s := by
  cases x with
  | ok a s => exact ⟨a, s, rfl, of_decide_eq_true h⟩
  | error d s => cases h

end Numlet
