import Numlet.NumType

/-!
The widening order of number types, read off the ranks. `join` is the maximum, and a fixed target takes
a value exactly when the value is not wider.
-/
namespace Numlet.NumType

theorem eq_of_rank_eq {a b : NumType} (h : a.rank = b.rank) : a = b := by
  cases a <;> cases b <;> first | rfl | cases h

theorem rank_join (a b : NumType) : (a.join b).rank = max a.rank b.rank := by
  cases a <;> cases b <;> rfl

theorem rank_le_join_left (a b : NumType) : a.rank ≤ (a.join b).rank := by
  rw [rank_join]
  exact Nat.le_max_left _ _

theorem rank_le_join_right (a b : NumType) : b.rank ≤ (a.join b).rank := by
  rw [rank_join]
  exact Nat.le_max_right _ _

theorem join_eq_left {a b : NumType} (h : b.rank ≤ a.rank) : a.join b = a := by
  unfold join
  rw [if_neg (by omega)]

/-- The wider one of two types is one of them. -/
theorem join_eq_or (a b : NumType) : a.join b = a ∨ a.join b = b := by
  unfold join
  split
  · exact .inr rfl
  · exact .inl rfl

@[simp] theorem joinKnown_some (a b : NumType) : joinKnown (some a) (some b) = a.join b := rfl

@[simp] theorem joinKnown_none (b : NumType) : joinKnown none (some b) = b := by
  cases b <;> rfl

theorem rank_le_joinKnown (o : Option NumType) (b : NumType) :
    b.rank ≤ (joinKnown o (some b)).rank := rank_le_join_right _ b

/-- A target takes on the wider type; a fixed one has to be that already. -/
theorem assign?_eq_some_iff {declared value t : NumType} {fixed : Bool} :
    assign? declared value fixed = some t ↔
      t = declared.join value ∧ (fixed = true → value.rank ≤ declared.rank) := by
  cases declared <;> cases value <;> cases fixed <;> cases t <;> decide

theorem assign?_fixed_isNone {declared value : NumType} :
    (assign? declared value true).isNone = true ↔ declared.rank < value.rank := by
  cases declared <;> cases value <;> decide

end Numlet.NumType
