import Numlet.Diagnostic
import Numlet.Proofs.Outcome

/-!
What a run can end with: a value with a property, or a diagnostic that may be blamed on its input.
-/
namespace Numlet

variable {σ α β : Type} {R : σ → Prop} {E : Diagnostic → Prop}

/-- A result is a value in a state as `P` says, or a diagnostic as `E` says. -/
def Ends (E : Diagnostic → Prop) (P : α → σ → Prop) : EStateM.Result Diagnostic σ α → Prop
  | .ok a s => P a s
  | .error d _ => E d

namespace Ends

variable {P : α → σ → Prop} {Q : β → σ → Prop} {s : σ}

theorem imp {Q : α → σ → Prop} {x : EStateM.Result Diagnostic σ α} (h : Ends E P x)
    (hQ : ∀ a s, x = .ok a s → P a s → Q a s) : Ends E Q x := by
  cases x with
  | ok a s => exact hQ a s rfl h
  | error d s => exact h

theorem bind {m : EStateM Diagnostic σ α} {k : α → EStateM Diagnostic σ β} (h : Ends E P (m s))
    (hk : ∀ a s', m s = .ok a s' → P a s' → Ends E Q (k a s')) : Ends E Q ((m >>= k) s) := by
  cases hm : m s with
  | ok a s' =>
    rw [bind_of_ok hm]
    rw [hm] at h
    exact hk a s' hm h
  | error d s' =>
    rw [bind_of_error hm]
    rwa [hm] at h

end Ends

/-- From a state as `R` says, a computation keeps to such states, and it ends with a value as `P` says or
with a diagnostic as `E` says. -/
def Blames (R : σ → Prop) (E : Diagnostic → Prop) (P : α → Prop) (m : EStateM Diagnostic σ α) : Prop :=
  ∀ s, R s → Ends E (fun a s' => R s' ∧ P a) (m s)

namespace Blames

variable {P : α → Prop} {Q : β → Prop}

theorem pure {a : α} (h : P a) : Blames R E P (pure a) := fun _ hR => ⟨hR, h⟩

theorem throw {d : Diagnostic} (h : E d) : Blames R E P (throw d) := fun _ _ => h

theorem get : Blames R E R get := fun _ hR => ⟨hR, hR⟩

theorem modify {f : σ → σ} (h : ∀ s, R s → R (f s)) : Blames R E (fun _ => True) (modify f) :=
  fun s hR => ⟨h s hR, trivial⟩

theorem imp {P' : α → Prop} {m : EStateM Diagnostic σ α} (h : Blames R E P m) (hP : ∀ a, P a → P' a) :
    Blames R E P' m :=
  fun s hR => (h s hR).imp fun a _ _ ha => ⟨ha.1, hP a ha.2⟩

theorem mono {E' : Diagnostic → Prop} {m : EStateM Diagnostic σ α} (h : Blames R E P m)
    (hE : ∀ d, E d → E' d) : Blames R E' P m := by
  intro s hR
  have hm := h s hR
  cases hrun : m s with
  | ok a s' => rwa [hrun] at hm
  | error d s' =>
    rw [hrun] at hm
    exact hE d hm

/-- A run that has succeeded. -/
theorem of_ok {m : EStateM Diagnostic σ α} (h : Blames R E P m) {s s' : σ} {a : α} (hR : R s)
    (hrun : m s = .ok a s') : R s' ∧ P a := by
  have hend := h s hR
  rwa [hrun] at hend

theorem bind {m : EStateM Diagnostic σ α} {k : α → EStateM Diagnostic σ β} (h : Blames R E P m)
    (hk : ∀ a, P a → Blames R E Q (k a)) : Blames R E Q (m >>= k) :=
  fun s hR => (h s hR).bind fun a s' _ ha => hk a ha.2 s' ha.1

theorem map {m : EStateM Diagnostic σ α} {f : α → β} (h : Blames R E P m) (hf : ∀ a, P a → Q (f a)) :
    Blames R E Q (f <$> m) := by
  intro s hR
  have hm := h s hR
  change Ends E _ (EStateM.map f m s)
  unfold EStateM.map
  cases hrun : m s with
  | ok a s' =>
    rw [hrun] at hm
    exact ⟨hm.1, hf a hm.2⟩
  | error d s' => rwa [hrun] at hm

theorem ite {c : Prop} [Decidable c] {m n : EStateM Diagnostic σ α} (hm : c → Blames R E P m)
    (hn : ¬c → Blames R E P n) : Blames R E P (if c then m else n) := by
  split
  · next hc => exact hm hc
  · next hc => exact hn hc

theorem forM {f : β → EStateM Diagnostic σ PUnit} {xs : List β}
    (h : ∀ x ∈ xs, Blames R E (fun _ => True) (f x)) : Blames R E (fun _ => True) (xs.forM f) := by
  induction xs with
  | nil => exact pure trivial
  | cons x xs ih =>
    exact (h x List.mem_cons_self).bind fun _ _ => ih fun y hy => h y (List.mem_cons_of_mem _ hy)

end Blames

end Numlet
