import Numlet.NumType
import Numlet.Table

/-!
Tables compared by what they find. Two tables agree exactly when they find the same, and a storage lies
below another when every slot in it is in the other, at a type no narrower.
-/
namespace Numlet.Table

variable {α : Type}

theorem find?_insert_self (t : Table α) (name : String) (value : α) :
    (t.insert name value).find? name = some value := by
  rw [find?_insert, if_pos rfl]

theorem find?_insert_of_ne (t : Table α) {name other : String} (value : α) (h : other ≠ name) :
    (t.insert name value).find? other = t.find? other := by
  rw [find?_insert, if_neg h]

theorem mem_of_find? {t : Table α} {name : String} {value : α} (h : t.find? name = some value) :
    (name, value) ∈ t.entries := by
  obtain ⟨entries⟩ := t
  change entries.lookup name = some value at h
  induction entries with
  | nil => cases h
  | cons e rest ih =>
    obtain ⟨n, v⟩ := e
    rw [lookup_cons] at h
    by_cases hn : name = n
    · rw [if_pos hn] at h
      cases h
      rw [hn]
      exact List.mem_cons_self
    · rw [if_neg hn] at h
      exact List.mem_cons_of_mem _ (ih h)

theorem find?_of_isWithin [BEq α] [LawfulBEq α] {t u : Table α} (h : t.isWithin u = true)
    {name : String} {value : α} (hf : t.find? name = some value) : u.find? name = some value := by
  have hm := mem_of_find? hf
  simp only [isWithin, List.all_eq_true, beq_iff_eq] at h
  exact h _ hm

theorem find?_eq_of_agrees [BEq α] [LawfulBEq α] {t u : Table α} (h : t.agrees u = true)
    (name : String) : t.find? name = u.find? name := by
  simp only [agrees, Bool.and_eq_true] at h
  cases ht : t.find? name with
  | some v => exact (find?_of_isWithin h.1 ht).symm
  | none =>
    cases hu : u.find? name with
    | none => rfl
    | some v => rw [find?_of_isWithin h.2 hu] at ht; cases ht

theorem mem_or_find?_of_foldl {es : List (String × α)} {t : Table α} {name : String} {value : α}
    (h : (es.foldl (fun t e => t.insert e.1 e.2) t).find? name = some value) :
    (name, value) ∈ es ∨ t.find? name = some value := by
  induction es generalizing t with
  | nil => exact .inr h
  | cons e es ih =>
    obtain hm | hf := ih h
    · exact .inl (List.mem_cons_of_mem _ hm)
    · rw [find?_insert] at hf
      by_cases hn : name = e.1
      · rw [if_pos hn] at hf
        cases hf
        subst hn
        exact .inl (List.mem_cons_self ..)
      · rw [if_neg hn] at hf
        exact .inr hf

/-- A table made from a list holds only what the list holds. -/
theorem mem_of_find?_ofList {es : List (String × α)} {name : String} {value : α}
    (h : (ofList es).find? name = some value) : (name, value) ∈ es := by
  obtain hm | hf := mem_or_find?_of_foldl h
  · exact hm
  · cases hf

theorem entries_eq_nil_iff {t : Table α} : t.entries = [] ↔ ∀ name, t.find? name = none := by
  constructor
  · intro h name
    unfold find?
    rw [h]
    rfl
  · intro h
    cases he : t.entries with
    | nil => rfl
    | cons e rest =>
      have hn := h e.1
      unfold find? at hn
      rw [he, lookup_cons, if_pos rfl] at hn
      cases hn

/-- Every slot of the one storage is in the other, at a type no narrower. -/
def Below (t u : Table NumType) : Prop :=
  ∀ slot a, t.find? slot = some a → ∃ b, u.find? slot = some b ∧ a.rank ≤ b.rank

theorem Below.refl (t : Table NumType) : t.Below t := fun _ a h => ⟨a, h, Nat.le_refl _⟩

theorem Below.trans {t u v : Table NumType} (h₁ : t.Below u) (h₂ : u.Below v) : t.Below v := by
  intro slot a ha
  obtain ⟨b, hb, hab⟩ := h₁ slot a ha
  obtain ⟨c, hc, hbc⟩ := h₂ slot b hb
  exact ⟨c, hc, Nat.le_trans hab hbc⟩

theorem below_insert {t : Table NumType} {slot : String} {b : NumType}
    (h : ∀ a, t.find? slot = some a → a.rank ≤ b.rank) : t.Below (t.insert slot b) := by
  intro other a ha
  by_cases ho : other = slot
  · subst ho
    exact ⟨b, find?_insert_self _ _ _, h a ha⟩
  · exact ⟨a, by rw [find?_insert_of_ne _ _ ho, ha], Nat.le_refl _⟩

end Numlet.Table
