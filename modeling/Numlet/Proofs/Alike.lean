import Numlet.Diagnostic
import Numlet.Proofs.Outcome

/-!
Two runs side by side. They are alike if they end in the same way, with related values and states, or with
the same fault at perhaps different places.
-/
namespace Numlet

variable {σ τ α β γ δ : Type}

/-- Results that differ as little as `Q` says in their values and as `R` says in their states. -/
def Alike (R : σ → τ → Prop) (Q : α → β → Prop) :
    EStateM.Result Diagnostic σ α → EStateM.Result Diagnostic τ β → Prop
  | .ok a s, .ok b t => Q a b ∧ R s t
  | .error d s, .error e t => e.fault = d.fault ∧ R s t
  | .ok _ _, .error _ _ | .error _ _, .ok _ _ => False

theorem Alike.cases {R : σ → τ → Prop} {Q : α → β → Prop} {x : EStateM.Result Diagnostic σ α}
    {y : EStateM.Result Diagnostic τ β} (h : Alike R Q x y) :
    (∃ a s b t, x = .ok a s ∧ y = .ok b t ∧ Q a b ∧ R s t) ∨
      ∃ d s e t, x = .error d s ∧ y = .error e t ∧ e.fault = d.fault ∧ R s t := by
  cases x with
  | ok a s =>
    cases y with
    | ok b t => exact .inl ⟨a, s, b, t, rfl, rfl, h⟩
    | error e t => exact h.elim
  | error d s =>
    cases y with
    | ok b t => exact h.elim
    | error e t => exact .inr ⟨d, s, e, t, rfl, rfl, h⟩

/-- From related states two computations have results that are alike. -/
def RunsAlike (R : σ → τ → Prop) (Q : α → β → Prop) (m : EStateM Diagnostic σ α)
    (n : EStateM Diagnostic τ β) : Prop :=
  ∀ s t, R s t → Alike R Q (m s) (n t)

namespace RunsAlike

variable {R : σ → τ → Prop} {P : γ → δ → Prop} {Q : α → β → Prop}

theorem pure {a : α} {b : β} (h : Q a b) : RunsAlike R Q (pure a) (pure b) := fun _ _ hR => ⟨h, hR⟩

theorem throw {d e : Diagnostic} (h : e.fault = d.fault) :
    RunsAlike R Q (throw d) (throw e) := fun _ _ hR => ⟨h, hR⟩

theorem get : RunsAlike R R get get := fun _ _ hR => ⟨hR, hR⟩

theorem modify {f : σ → σ} {g : τ → τ} (h : ∀ s t, R s t → R (f s) (g t)) :
    RunsAlike R (fun _ _ => True) (modify f) (modify g) := fun s t hR => ⟨trivial, h s t hR⟩

theorem bind {m : EStateM Diagnostic σ γ} {n : EStateM Diagnostic τ δ}
    {k : γ → EStateM Diagnostic σ α} {l : δ → EStateM Diagnostic τ β} (h : RunsAlike R P m n)
    (hk : ∀ a b, P a b → RunsAlike R Q (k a) (l b)) : RunsAlike R Q (m >>= k) (n >>= l) := by
  intro s t hR
  obtain ⟨a, s₁, b, t₁, hm, hn, hP, hR₁⟩ | ⟨d, s₁, e, t₁, hm, hn, hfault⟩ := (h s t hR).cases
  · rw [bind_of_ok hm, bind_of_ok hn]
    exact hk a b hP s₁ t₁ hR₁
  · rw [bind_of_error hm, bind_of_error hn]
    exact hfault

theorem map {m : EStateM Diagnostic σ γ} {n : EStateM Diagnostic τ δ} {f : γ → α} {g : δ → β}
    (h : RunsAlike R P m n) (hf : ∀ a b, P a b → Q (f a) (g b)) :
    RunsAlike R Q (f <$> m) (g <$> n) := by
  intro s t hR
  change Alike R Q (EStateM.map f m s) (EStateM.map g n t)
  unfold EStateM.map
  obtain ⟨a, s₁, b, t₁, hm, hn, hP, hR₁⟩ | ⟨d, s₁, e, t₁, hm, hn, hfault⟩ := (h s t hR).cases
  · rw [hm, hn]
    exact ⟨hf a b hP, hR₁⟩
  · rw [hm, hn]
    exact hfault

/-- The same way is taken in both runs. -/
theorem ite {c c' : Prop} [Decidable c] [Decidable c'] {m m' : EStateM Diagnostic σ α}
    {n n' : EStateM Diagnostic τ β} (hc : c' ↔ c) (h : RunsAlike R Q m n)
    (h' : RunsAlike R Q m' n') : RunsAlike R Q (if c then m else m') (if c' then n else n') := by
  by_cases hp : c
  · rwa [if_pos hp, if_pos (hc.mpr hp)]
  · rwa [if_neg hp, if_neg (mt hc.mp hp)]

end RunsAlike

end Numlet
