import Numlet.Proofs.Check.Pins

/-!
How far the wanted type can move a type. It only chooses the width of literals, so the type of a
constant under one hint is no wider than under any other, up to the hint itself. A constant that is
checked again at the width of its right neighbour therefore leaves the operand type where it was.
-/
namespace Numlet
open Checking

namespace NumType

/-- The rank of a wanted type, where none counts as the narrowest. -/
def wanted (hint : Option NumType) : Nat := (hint.getD .i32).rank

@[simp] theorem wanted_none : wanted none = 0 := rfl

@[simp] theorem wanted_some (t : NumType) : wanted (some t) = t.rank := rfl

end NumType

open NumType

theorem Literal.rank_typeFor_le (value : Literal) (a b : Option NumType) :
    (value.typeFor a).rank ≤ max (wanted a) (value.typeFor b).rank := by
  cases value with
  | int n =>
    -- Only a number that fits `i32` looks at the hint, and it follows no hint but `i64`.
    simp only [typeFor]
    by_cases ha : forInteger n = .i32 ∧ a = some .i64
    · rw [if_pos ha, ha.2]
      exact Nat.le_max_left _ _
    · rw [if_neg ha]
      refine Nat.le_trans ?_ (Nat.le_max_right _ _)
      by_cases hb : forInteger n = .i32 ∧ b = some .i64
      · rw [hb.1]
        exact Nat.zero_le _
      · exact Nat.le_of_eq (congrArg rank (if_neg hb).symm)
  | fraction x =>
    change (forFraction a).rank ≤ max _ (forFraction b).rank
    unfold forFraction
    by_cases ha : a = some .f64
    · rw [if_pos ha, ha]
      exact Nat.le_max_left _ _
    · rw [if_neg ha]
      refine Nat.le_trans ?_ (Nat.le_max_right _ _)
      split <;> decide

theorem wanted_rightHint_le (left : NumType) (hint : Option NumType) :
    wanted (rightHint left hint) ≤ max (wanted hint) left.rank := by
  unfold rightHint
  split
  · next h =>
    rw [h]
    exact Nat.le_max_right _ _
  · exact Nat.le_max_left _ _

/-- The type of a binary expression, given those of its operands under the hint. -/
def BinaryOp.typeOf (op : BinaryOp) (left right : NumType) : NumType :=
  if op.isArithmetic then left.join right else .i32

theorem BinaryOp.Types.type_eq {op : BinaryOp} {left right operandType type : NumType}
    (h : op.Types left right operandType type) : type = op.typeOf left right := by
  unfold Types at h
  unfold typeOf
  cases op <;> simp_all [isLogical, isArithmetic, isComparison]

theorem BinaryOp.rank_typeOf_le (op : BinaryOp) {hint : Option NumType} {l r l' r' : NumType}
    (hl : l.rank ≤ max (wanted (op.operandHint hint)) l'.rank)
    (hr : r.rank ≤ max (wanted (rightHint l (op.operandHint hint))) r'.rank) :
    (op.typeOf l r).rank ≤ max (wanted hint) (op.typeOf l' r').rank := by
  unfold typeOf
  by_cases ha : op.isArithmetic = true
  · have hw := wanted_rightHint_le l (op.operandHint hint)
    rw [operandHint, if_pos ha] at hl hr hw
    rw [if_pos ha, if_pos ha, rank_join, rank_join]
    omega
  · rw [if_neg ha]
    exact Nat.zero_le _

section Constants

variable {a b hint : Option NumType} {s s' u u' : Checker} {t t' : Typed.Expr}

/-- Under a hint a constant is no wider than under another, up to the hint. -/
def Expr.HintBounded (e : Expr) : Prop :=
  ∀ ⦃a b : Option NumType⦄ ⦃s s' u u' : Checker⦄ ⦃t t' : Typed.Expr⦄, ExprRun e a s t s' →
    ExprRun e b u t' u' → t.type.rank ≤ max (wanted a) t'.type.rank

/-- A constant that is checked again at the width of its wider right neighbour leaves the operand type where
it was: under either hint it stays below that neighbour. -/
theorem Expr.HintBounded.join_again {left : Expr} (hleft : left.HintBounded) {right : NumType}
    (h : ExprRun left a s t s') (ha : ExprRun left (some right) u t' u') (hw : t.type.rank < right.rank) :
    t'.type.join right = t.type.join right := by
  have hagain := hleft ha h
  rw [wanted_some] at hagain
  apply eq_of_rank_eq
  rw [rank_join, rank_join]
  omega

/-- The operands of a binary expression, where the type does not depend on whether the left one was
checked again. -/
theorem ExprRun.operands_of_bounded {op : BinaryOp} {left right : Expr} {span : Span}
    (hleft : left.isConstant = true → left.HintBounded)
    (h : ExprRun (.binary op left right span) hint s t s') :
    ∃ first s₁ second, ExprRun left (op.operandHint hint) s first s₁ ∧
      ExprRun right (rightHint first.type (op.operandHint hint)) s₁ second s' ∧
      t.type = op.typeOf first.type second.type := by
  cases h with
  | binary hl hr _ ht => exact ⟨_, _, _, hl, hr, ht.type_eq⟩
  | @widened _ _ _ _ _ _ first s₁ second s₂ again _ _ _ hl hr hw ha ht =>
    simp only [BinaryOp.widens, Bool.and_eq_true, decide_eq_true_eq] at hw
    have hsame := ha.of_constant hw.2
    have hjoin := (hleft hw.2).join_again hl ha hw.1.2
    refine ⟨first, s₁, second, hl, hsame ▸ hr, ht.type_eq.trans ?_⟩
    unfold BinaryOp.typeOf
    rw [hjoin]

theorem Expr.hintBounded_of_constant (e : Expr) (hc : e.isConstant = true) : e.HintBounded := by
  intro a b s s' u u' t t' h h'
  match e with
  | .literal value span =>
    cases h
    cases h'
    exact value.rank_typeFor_le a b
  | .unary op operand span =>
    have hoperand := hintBounded_of_constant operand hc
    cases h with
    | unary h =>
      cases h' with
      | unary h' =>
        have hle := hoperand h h'
        by_cases hop : op = .not
        · simp [Typed.Expr.type, hop, rank]
        · simpa [Typed.Expr.type, hop] using hle
  | .binary op left right span =>
    simp only [isConstant, Bool.and_eq_true] at hc
    have hleft := hintBounded_of_constant left hc.1
    have hright := hintBounded_of_constant right hc.2
    obtain ⟨first, s₁, second, hl, hr, ht⟩ := h.operands_of_bounded fun _ => hleft
    obtain ⟨first', u₁, second', hl', hr', ht'⟩ := h'.operands_of_bounded fun _ => hleft
    rw [ht, ht']
    exact op.rank_typeOf_le (hleft hl hl') (hright hr hr')
  | .var .. | .update .. | .assign .. | .convert .. | .call .. => cases hc

theorem ExprRun.operands {op : BinaryOp} {left right : Expr} {span : Span}
    (h : ExprRun (.binary op left right span) hint s t s') :
    ∃ first s₁ second, ExprRun left (op.operandHint hint) s first s₁ ∧
      ExprRun right (rightHint first.type (op.operandHint hint)) s₁ second s' ∧
      t.type = op.typeOf first.type second.type :=
  h.operands_of_bounded fun hc => left.hintBounded_of_constant hc

end Constants

end Numlet
