import Mathlib.Algebra.GroupWithZero.Nat
import Mathlib.Data.List.Forall2
import Numlet.Proofs.Tables
import Numlet.Proofs.Widening

/-!
Storages with the same slots in the same order. Such storages are compared slot by slot, and the sum of
the ranks tells how far a storage is from the widest one.
-/
namespace Numlet

theorem NumType.rank_le_three (t : NumType) : t.rank ≤ 3 := by
  cases t <;> decide

namespace Table

/-- The names of a table, in order. -/
def slots {α : Type} (t : Table α) : List String := t.entries.map Prod.fst

section

variable {α : Type} {t : Table α} {name : String} {value : α}

theorem mem_slots_insertEntry {entries : List (String × α)} {other : String}
    (h : other ∈ (insertEntry name value entries).map Prod.fst) :
    other = name ∨ other ∈ entries.map Prod.fst := by
  induction entries with
  | nil => exact .inl (List.mem_singleton.mp h)
  | cons e rest ih =>
    obtain ⟨n, v⟩ := e
    rw [insertEntry] at h
    split at h
    · exact .inr h
    · obtain rfl | h := List.mem_cons.mp h
      · exact .inr List.mem_cons_self
      · exact (ih h).imp_right (List.mem_cons_of_mem _)

/-- A name stands at most once. -/
theorem nodup_slots_insert (h : t.slots.Nodup) : (t.insert name value).slots.Nodup := by
  obtain ⟨entries⟩ := t
  change ((insertEntry name value entries).map Prod.fst).Nodup
  change (entries.map Prod.fst).Nodup at h
  induction entries with
  | nil => exact List.pairwise_singleton _ name
  | cons e rest ih =>
    obtain ⟨n, v⟩ := e
    rw [List.map_cons, List.nodup_cons] at h
    rw [insertEntry]
    split
    · exact List.nodup_cons.mpr h
    · next hn =>
      refine List.nodup_cons.mpr ⟨fun hm => ?_, ih h.2⟩
      obtain rfl | hm := mem_slots_insertEntry hm
      · exact hn rfl
      · exact h.1 hm

theorem length_insert_le : (t.insert name value).entries.length ≤ t.entries.length + 1 := by
  obtain ⟨entries⟩ := t
  change (insertEntry name value entries).length ≤ entries.length + 1
  induction entries with
  | nil => exact Nat.le_refl _
  | cons e rest ih =>
    obtain ⟨n, v⟩ := e
    rw [insertEntry]
    split
    · exact Nat.le_succ _
    · exact Nat.succ_le_succ ih

theorem find?_of_mem (h : t.slots.Nodup) (hm : (name, value) ∈ t.entries) :
    t.find? name = some value := by
  obtain ⟨entries⟩ := t
  change entries.lookup name = some value
  change (entries.map Prod.fst).Nodup at h
  induction entries with
  | nil => cases hm
  | cons e rest ih =>
    obtain ⟨n, v⟩ := e
    rw [List.map_cons, List.nodup_cons] at h
    rw [lookup_cons]
    obtain heq | hrest := List.mem_cons.mp hm
    · cases heq
      exact if_pos rfl
    · have hne : name ≠ n := by
        rintro rfl
        exact h.1 (List.mem_map.mpr ⟨_, hrest, rfl⟩)
      rw [if_neg hne]
      exact ih hrest h.2

theorem agrees_self [BEq α] [LawfulBEq α] (h : t.slots.Nodup) : t.agrees t = true := by
  have hw : t.isWithin t = true := by
    rw [isWithin, List.all_eq_true]
    intro e he
    rw [beq_iff_eq]
    exact find?_of_mem h he
  rw [agrees, hw]
  rfl

end

/-- The same slots in the same order, each at a type no narrower. -/
def Under (t u : Table NumType) : Prop :=
  List.Forall₂ (fun a b => b.1 = a.1 ∧ a.2.rank ≤ b.2.rank) t.entries u.entries

namespace Under

variable {t u : Table NumType}

theorem slots_eq (h : t.Under u) : u.slots = t.slots := by
  obtain ⟨ts⟩ := t
  obtain ⟨us⟩ := u
  change us.map Prod.fst = ts.map Prod.fst
  change List.Forall₂ _ ts us at h
  induction h with
  | nil => rfl
  | cons h _ ih => rw [List.map_cons, List.map_cons, h.1, ih]

theorem find? (h : t.Under u) (slot : String) :
    Option.Rel (fun a b : NumType => a.rank ≤ b.rank) (t.find? slot) (u.find? slot) := by
  obtain ⟨ts⟩ := t
  obtain ⟨us⟩ := u
  change Option.Rel _ (ts.lookup slot) (us.lookup slot)
  change List.Forall₂ _ ts us at h
  induction h with
  | nil => exact .none
  | @cons a b _ _ h _ ih =>
    obtain ⟨n, v⟩ := a
    obtain ⟨m, w⟩ := b
    obtain ⟨rfl, hle⟩ := h
    rw [lookup_cons, lookup_cons]
    split
    · exact .some hle
    · exact ih

theorem below (h : t.Under u) : t.Below u := by
  intro slot a ha
  have hrel := h.find? slot
  rw [ha] at hrel
  cases hb : u.find? slot with
  | none =>
    rw [hb] at hrel
    cases hrel
  | some b =>
    rw [hb] at hrel
    cases hrel with
    | some hle => exact ⟨b, rfl, hle⟩

theorem insert (h : t.Under u) (slot : String) {a b : NumType} (hle : a.rank ≤ b.rank) :
    (t.insert slot a).Under (u.insert slot b) := by
  obtain ⟨ts⟩ := t
  obtain ⟨us⟩ := u
  change List.Forall₂ _ (insertEntry slot a ts) (insertEntry slot b us)
  change List.Forall₂ _ ts us at h
  induction h with
  | nil => exact .cons ⟨rfl, hle⟩ .nil
  | @cons x y _ _ h hrest ih =>
    obtain ⟨n, v⟩ := x
    obtain ⟨m, w⟩ := y
    obtain ⟨rfl, hvw⟩ := h
    rw [insertEntry, insertEntry]
    split
    · exact .cons ⟨rfl, hle⟩ hrest
    · exact .cons ⟨rfl, hvw⟩ ih

end Under

/-- The ranks of all slots together. -/
def weight (t : Table NumType) : Nat := (t.entries.map (·.2.rank)).sum

theorem weight_le (t : Table NumType) : t.weight ≤ 3 * t.entries.length := by
  obtain ⟨entries⟩ := t
  change (entries.map (·.2.rank)).sum ≤ 3 * entries.length
  induction entries with
  | nil => exact Nat.le_refl _
  | cons e rest ih =>
    have he := e.2.rank_le_three
    rw [List.map_cons, List.sum_cons, List.length_cons]
    omega

theorem Under.weight_le {t u : Table NumType} (h : t.Under u) : t.weight ≤ u.weight := by
  obtain ⟨ts⟩ := t
  obtain ⟨us⟩ := u
  change (ts.map (·.2.rank)).sum ≤ (us.map (·.2.rank)).sum
  change List.Forall₂ _ ts us at h
  induction h with
  | nil => exact Nat.le_refl _
  | cons h _ ih =>
    rw [List.map_cons, List.map_cons, List.sum_cons, List.sum_cons]
    have hle := h.2
    omega

/-- A storage that is not heavier than one below it is that one. -/
theorem Under.eq_of_weight_le {t u : Table NumType} (h : t.Under u) (hw : u.weight ≤ t.weight) :
    u = t := by
  obtain ⟨ts⟩ := t
  obtain ⟨us⟩ := u
  change (us.map (·.2.rank)).sum ≤ (ts.map (·.2.rank)).sum at hw
  change List.Forall₂ _ ts us at h
  congr 1
  induction h with
  | nil => rfl
  | @cons a b ts us h hrest ih =>
    have hrestw := Under.weight_le (t := ⟨ts⟩) (u := ⟨us⟩) hrest
    change (ts.map (·.2.rank)).sum ≤ (us.map (·.2.rank)).sum at hrestw
    rw [List.map_cons, List.map_cons, List.sum_cons, List.sum_cons] at hw
    have hle := h.2
    have hhead : b = a := Prod.ext h.1 (NumType.eq_of_rank_eq (by omega))
    rw [hhead, ih (by omega)]

end Table
end Numlet
