import Numlet.Proofs.Check.Statements

/-!
Names, slots and storage. A bound name always has storage that can hold it, a parameter keeps its slot
for itself and its declared type, and every slot carries the name that it was declared for.
-/
namespace Numlet

theorem Scope.find?_declare (s : Scope) (name slot other : String) (type : NumType) (fixed : Bool) :
    (s.declare name slot type fixed).find? other =
      if other = name then some ⟨type, fixed, slot⟩ else s.find? other :=
  Table.find?_insert _ _ _ _

theorem Scope.find?_retype {s : Scope} {name : String} {v : Variable} (h : s.find? name = some v)
    (other : String) (type : NumType) :
    (s.retype name type).find? other =
      if other = name then some { v with type := type } else s.find? other := by
  unfold retype
  simp only [h]
  exact Table.find?_insert _ _ _ _

namespace Checker
open Checking

theorem storage_recorded (s : Checker) (slot other : String) (type : NumType) :
    (s.recorded slot type).storage.find? other =
      if other = slot then some (NumType.joinKnown (s.storage.find? slot) (some type))
      else s.storage.find? other :=
  Table.find?_insert _ _ _ _

/-- Every bound name has storage no narrower than its type. -/
def Bound (s : Checker) : Prop :=
  ∀ name v, s.scope.find? name = some v →
    ∃ t, s.storage.find? v.slot = some t ∧ v.type.rank ≤ t.rank

theorem Bound.mono {s s' : Checker} (h : s.Bound) (hs : s'.scope.bindings = s.scope.bindings)
    (hb : s.storage.Below s'.storage) : s'.Bound := by
  intro name v hv
  unfold Scope.find? at hv
  rw [hs] at hv
  obtain ⟨t, ht, hvt⟩ := h name v hv
  obtain ⟨u, hu, htu⟩ := hb v.slot t ht
  exact ⟨u, hu, Nat.le_trans hvt htu⟩

/-- After a value has been recorded for a slot, a binding of that slot at the value's type has storage,
and so have the other bindings. -/
theorem Bound.recorded {s : Checker} {slot : String} {type : NumType}
    (h : ∀ name v, s.scope.find? name = some v →
      (v.slot = slot ∧ v.type = type) ∨ ∃ t, s.storage.find? v.slot = some t ∧ v.type.rank ≤ t.rank) :
    (s.recorded slot type).Bound := by
  intro name v hv
  obtain ⟨rfl, rfl⟩ | ⟨t, ht, hvt⟩ := h name v hv
  · exact ⟨_, by rw [storage_recorded, if_pos rfl], NumType.rank_le_joinKnown _ _⟩
  · obtain ⟨u, hu, htu⟩ := s.below_recorded slot type v.slot t ht
    exact ⟨u, hu, Nat.le_trans hvt htu⟩

end Checker

variable {N : String → Prop}

theorem Step.bound {s s' : Checker} (h : Step N s s') (hb : s.Bound) : s'.Bound := by
  cases h with
  | report | pin => exact hb
  | @assign name v value type hv ht =>
    apply Checker.Bound.recorded
    intro other w hw
    change (s.scope.retype name type).find? other = some w at hw
    rw [Scope.find?_retype hv] at hw
    split at hw
    · cases hw
      exact .inl ⟨rfl, rfl⟩
    · exact .inr (hb other w hw)
  | @declare name type fixed hn =>
    apply Checker.Bound.recorded
    intro other w hw
    change (s.scope.declare name _ type fixed).find? other = some w at hw
    rw [Scope.find?_declare] at hw
    split at hw
    · cases hw
      exact .inl ⟨rfl, rfl⟩
    · exact .inr (hb other w hw)

theorem Steps.bound {s s' : Checker} (h : Steps N s s') (hb : s.Bound) : s'.Bound := by
  induction h with
  | refl => exact hb
  | tail _ hs ih => exact hs.bound ih

theorem Advance.bound {s s' : Checker} (h : Advance N s s') (hb : s.Bound) : s'.Bound := by
  induction h with
  | steps h => exact h.bound hb
  | trans _ _ ih₁ ih₂ => exact ih₂ (ih₁ hb)
  | bare | valued => exact hb
  | infer _ _ _ h _ => exact h.bound hb
  | inner hs _ h ih => exact hb.mono rfl h.extends.storage

namespace Checker

/-- A slot that belongs to one declaration, with a type that nothing widens. -/
structure Holds (s : Checker) (slot : String) (type : NumType) : Prop where
  declared : ∃ n, s.declarations.find? slot = some n ∧ 0 < n
  bindings : ∀ name v, s.scope.find? name = some v → v.slot = slot → v.type = type ∧ v.fixed = true
  storage : s.storage.find? slot = some type

end Checker

open Checking in
theorem slotName_ne {slot : String} (hd : '.' ∉ slot.toList) (name : String) {n : Nat} (hn : 0 < n) :
    slotName name n ≠ slot := by
  rintro rfl
  apply hd
  unfold slotName
  rw [if_neg (by omega)]
  simp

theorem Step.holds {s s' : Checker} (h : Step N s s') {slot : String} {type : NumType}
    (hd : '.' ∉ slot.toList) (hs : s.Holds slot type) : s'.Holds slot type := by
  cases h with
  | report | pin => exact ⟨hs.declared, hs.bindings, hs.storage⟩
  | @assign name v value widened hv ht =>
    rw [NumType.assign?_eq_some_iff] at ht
    refine ⟨hs.declared, ?_, ?_⟩
    · intro other w hw hslot
      change (s.scope.retype name widened).find? other = some w at hw
      rw [Scope.find?_retype hv] at hw
      split at hw
      · cases hw
        obtain ⟨htype, hfixed⟩ := hs.bindings name v hv hslot
        refine ⟨?_, hfixed⟩
        rw [ht.1, NumType.join_eq_left (ht.2 hfixed), htype]
      · exact hs.bindings other w hw hslot
    · change ((s.withScope _).recorded v.slot widened).storage.find? slot = some type
      rw [Checker.storage_recorded]
      split
      · next hslot =>
        subst hslot
        obtain ⟨htype, hfixed⟩ := hs.bindings name v hv rfl
        change some (NumType.joinKnown (s.storage.find? v.slot) (some widened)) = some type
        rw [hs.storage, NumType.joinKnown_some, ht.1, NumType.join_eq_left (ht.2 hfixed), htype,
          NumType.join_eq_left (Nat.le_refl _)]
      · exact hs.storage
  | @declare name widened fixed hn =>
    -- The slot was declared before, so a new declaration of its name gets a number.
    have hne : s.nextSlot name ≠ slot := by
      unfold Checker.nextSlot
      cases hc : s.declarations.find? name with
      | none =>
        obtain ⟨n, hn, _⟩ := hs.declared
        rintro rfl
        rw [show Checking.slotName name (Option.getD none 0) = name from rfl, hc] at hn
        cases hn
      | some n =>
        cases n with
        | succ n => exact slotName_ne hd name (Nat.succ_pos n)
        | zero =>
          obtain ⟨n, hn, hpos⟩ := hs.declared
          rintro rfl
          rw [show Checking.slotName name (Option.getD (some 0) 0) = name from rfl, hc] at hn
          cases hn
          omega
    refine ⟨?_, ?_, ?_⟩
    · obtain ⟨n, hn', hpos⟩ := hs.declared
      obtain ⟨m, hm, hnm⟩ := (Step.declare hn : Step N s (s.declared name widened fixed)).extends
        |>.declarations slot n hn'
      exact ⟨m, hm, by omega⟩
    · intro other w hw hslot
      change (s.scope.declare name _ widened fixed).find? other = some w at hw
      rw [Scope.find?_declare] at hw
      split at hw
      · cases hw
        exact absurd hslot hne
      · exact hs.bindings other w hw hslot
    · unfold Checker.declared
      rw [Checker.storage_recorded, if_neg (Ne.symm hne)]
      exact hs.storage

theorem Steps.holds {s s' : Checker} (h : Steps N s s') {slot : String} {type : NumType}
    (hd : '.' ∉ slot.toList) (hs : s.Holds slot type) : s'.Holds slot type := by
  induction h with
  | refl => exact hs
  | tail _ step ih => exact step.holds hd ih

theorem Advance.holds {s s' : Checker} (h : Advance N s s') {slot : String} {type : NumType}
    (hd : '.' ∉ slot.toList) (hs : s.Holds slot type) : s'.Holds slot type := by
  induction h with
  | steps h => exact h.holds hd hs
  | trans _ _ ih₁ ih₂ => exact ih₂ (ih₁ hs)
  | bare | valued => exact ⟨hs.declared, hs.bindings, hs.storage⟩
  | infer _ _ _ h _ =>
    have hs' := h.holds hd hs
    exact ⟨hs'.declared, hs'.bindings, hs'.storage⟩
  | @inner s s₁ scope hb _ _ ih =>
    have hs' := ih ⟨hs.declared, fun name v hv => hs.bindings name v (by
      unfold Scope.find? at hv ⊢
      rwa [← hb]), hs.storage⟩
    exact ⟨hs'.declared, hs.bindings, hs'.storage⟩

/-- What holds of the slots of all names with `N` holds of all slots in use. -/
def Checker.SlotsAll (Q : String → Prop) (s : Checker) : Prop :=
  ∀ slot t, s.storage.find? slot = some t → Q slot

section
variable {Q : String → Prop} (hq : ∀ name n, N name → Q (Checking.slotName name n))
include hq

theorem Step.slotsAll {s s' : Checker} (h : Step N s s') (hb : s.Bound) (hs : s.SlotsAll Q) :
    s'.SlotsAll Q := by
  cases h with
  | report | pin => exact hs
  | @assign name v value type hv ht =>
    intro slot t hslot
    change ((s.withScope _).recorded v.slot type).storage.find? slot = some t at hslot
    rw [Checker.storage_recorded] at hslot
    split at hslot
    · next heq =>
      obtain ⟨u, hu, _⟩ := hb name v hv
      exact heq ▸ hs v.slot u hu
    · exact hs slot t hslot
  | @declare name type fixed hn =>
    intro slot t hslot
    unfold Checker.declared at hslot
    rw [Checker.storage_recorded] at hslot
    split at hslot
    · next heq => exact heq ▸ hq name _ hn
    · exact hs slot t hslot

theorem Steps.slotsAll {s s' : Checker} (h : Steps N s s') (hb : s.Bound) (hs : s.SlotsAll Q) :
    s'.SlotsAll Q := by
  induction h with
  | refl => exact hs
  | tail hsteps step ih => exact step.slotsAll hq (Steps.bound hsteps hb) ih

theorem Advance.slotsAll {s s' : Checker} (h : Advance N s s') (hb : s.Bound)
    (hs : s.SlotsAll Q) : s'.SlotsAll Q := by
  induction h with
  | steps h => exact h.slotsAll hq hb hs
  | trans h₁ _ ih₁ ih₂ => exact ih₂ (h₁.bound hb) (ih₁ hb hs)
  | bare | valued => exact hs
  | infer _ _ _ h _ => exact h.slotsAll hq hb hs
  | inner hbind _ _ ih => exact ih (hb.mono hbind (.refl _)) hs

end

end Numlet
