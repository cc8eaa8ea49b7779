import Numlet.Proofs.Check.Complete
import Numlet.Proofs.Check.Hints

/-!
The tree that an expression has when another type is wanted of it. A wanted type goes down through signs and
arithmetic to the literals and no further, so this tree can be read off the one that was made for any other
wanted type, with no look at the source or at the state.
-/
namespace Numlet
open Checking NumType

namespace Typed.Expr

/-- Whether an expression is built from literals alone. -/
def isConstant : Typed.Expr → Bool
  | .literal _ _ _ => true
  | .unary _ operand _ _ => operand.isConstant
  | .binary _ left right _ _ _ => left.isConstant && right.isConstant
  | _ => false

/-- The expression with the types that it has if `hint` is wanted of it. -/
def asked : Typed.Expr → Option NumType → Typed.Expr
  | .literal value _ span, hint => .literal value (value.typeFor hint) span
  | .unary op operand type span, hint =>
    if op = .not then .unary op operand type span
    else .unary op (operand.asked hint) (operand.asked hint).type span
  | .binary op left right operandType type span, hint =>
    if op.isArithmetic then
      let second := right.asked (rightHint (left.asked hint).type hint)
      -- A constant takes the width of a wider operand to its right.
      let first := left.asked
        (if (left.asked hint).type.rank < second.type.rank ∧ left.isConstant then some second.type else hint)
      .binary op first second (first.type.join second.type) (first.type.join second.type) span
    else .binary op left right operandType type span
  | e, _ => e

end Typed.Expr

/-- Whether a type that is wanted of an expression is looked at. -/
def Expr.takesHint : Expr → Bool
  | .literal _ _ => true
  | .unary op _ _ => op ≠ .not
  | .binary op _ _ _ => op.isArithmetic
  | _ => false

theorem BinaryOp.types_iff_of_arithmetic {op : BinaryOp} (h : op.isArithmetic = true)
    {left right operandType type : NumType} : op.Types left right operandType type ↔
      operandType = left.join right ∧ type = left.join right ∧
        (op = .remainder → (left.join right).isFloat = false) := by
  cases op with
  | add | subtract | multiply | divide | remainder =>
    simp only [Types, isLogical, isComparison, Bool.false_eq_true, if_false]
    constructor
    · rintro ⟨rfl, hr, rfl⟩
      exact ⟨rfl, rfl, hr⟩
    · rintro ⟨rfl, rfl, hr⟩
      exact ⟨rfl, hr, rfl⟩
  | equals | notEquals | less | lessEquals | greater | greaterEquals | and | or => cases h

theorem NumType.isFloat_join (a b : NumType) : (a.join b).isFloat = (a.isFloat || b.isFloat) := by
  cases a <;> cases b <;> rfl

theorem Literal.isFloat_typeFor (value : Literal) (a b : Option NumType) :
    (value.typeFor a).isFloat = (value.typeFor b).isFloat := by
  have hint : ∀ n hint, ((Literal.int n).typeFor hint).isFloat = false := by
    intro n hint
    simp only [typeFor, forInteger]
    split <;> split <;> rfl
  have hfraction : ∀ x hint, ((Literal.fraction x).typeFor hint).isFloat = true := by
    intro x hint
    simp only [typeFor, forFraction]
    split <;> rfl
  cases value with
  | int n => rw [hint, hint]
  | fraction x => rw [hfraction, hfraction]

section Runs

variable {e : Expr} {a b : Option NumType} {s s' u u' : Checker} {t t' : Typed.Expr}

theorem ExprRun.any_hint (h : ExprRun e a s t s') (he : e.takesHint = false) (b : Option NumType) :
    ExprRun e b s t s' := by
  cases h with
  | literal => cases he
  | @unary op _ _ _ _ _ _ h =>
    have hop : op = .not := by simpa [Expr.takesHint] using he
    subst hop
    exact .unary h
  | @binary op _ _ _ _ _ _ _ _ _ _ _ hl hr hw ht =>
    have hnone : ∀ hint, op.operandHint hint = none := fun hint => if_neg (by simpa [Expr.takesHint] using he)
    rw [hnone] at hl hr
    exact .binary (by rwa [hnone]) (by rwa [hnone]) hw ht
  | @widened op _ _ _ _ _ _ _ _ _ _ _ _ _ hl hr hw ha ht =>
    have hnone : ∀ hint, op.operandHint hint = none := fun hint => if_neg (by simpa [Expr.takesHint] using he)
    rw [hnone] at hl hr
    exact .widened (by rwa [hnone]) (by rwa [hnone]) hw ha ht
  | var hv => exact .var hv
  | update hv => exact .update hv
  | assign h => exact .assign h
  | convert h => exact .convert h
  | call hs h hf hc hr => exact .call hs h hf hc hr
  | pinningCall hs h hf hc => exact .pinningCall hs h hf hc

theorem ExprRun.asked_of_no_hint (h : ExprRun e a s t s') (he : e.takesHint = false)
    (b : Option NumType) : t.asked b = t := by
  cases h with
  | literal => cases he
  | unary => exact if_pos (by simpa [Expr.takesHint] using he)
  | binary | widened => exact if_neg (by simpa [Expr.takesHint] using he)
  | var | update | assign | convert | call | pinningCall => rfl

end Runs

theorem ExprRun.isConstant_eq {e : Expr} {hint : Option NumType} {s s' : Checker} {t : Typed.Expr}
    (h : ExprRun e hint s t s') : t.isConstant = e.isConstant := by
  cases h with
  | literal | var | update | assign | convert | call | pinningCall => rfl
  | unary h => exact h.isConstant_eq
  | binary hl hr =>
    simp only [Typed.Expr.isConstant, Expr.isConstant, hl.isConstant_eq, hr.isConstant_eq]
  | widened _ hr _ ha =>
    simp only [Typed.Expr.isConstant, Expr.isConstant, ha.isConstant_eq, hr.isConstant_eq]

/-- A constant is checked alike in every state. -/
theorem ExprRun.constant_at {e : Expr} {hint : Option NumType} {s s' : Checker} {t : Typed.Expr}
    (h : ExprRun e hint s t s') (hc : e.isConstant = true) (u : Checker) : ExprRun e hint u t u := by
  cases h with
  | literal => exact .literal
  | unary h => exact .unary (h.constant_at hc u)
  | binary hl hr hw ht =>
    simp only [Expr.isConstant, Bool.and_eq_true] at hc
    exact .binary (hl.constant_at hc.1 u) (hr.constant_at hc.2 u) hw ht
  | widened hl hr hw ha ht =>
    simp only [Expr.isConstant, Bool.and_eq_true] at hc
    exact .widened (hl.constant_at hc.1 u) (hr.constant_at hc.2 u) hw (ha.constant_at hc.1 u) ht
  | var | update | assign | convert | call | pinningCall => cases hc

section Arithmetic

variable {op : BinaryOp} {l r first second : Typed.Expr} {operandType type : NumType} {span : Span}
  {hint : Option NumType}

theorem Typed.Expr.asked_unary {op : UnaryOp} (hop : op ≠ .not) :
    (Typed.Expr.unary op l type span).asked hint = .unary op (l.asked hint) (l.asked hint).type span :=
  if_neg hop

theorem BinaryOp.widens_of_arithmetic (hop : op.isArithmetic = true) (left : Expr) (x y : NumType) :
    op.widens left x y = true ↔ x.rank < y.rank ∧ left.isConstant = true := by
  have hlogical : op.isLogical = false := by
    cases op with
    | add | subtract | multiply | divide | remainder => rfl
    | equals | notEquals | less | lessEquals | greater | greaterEquals | and | or => cases hop
  simp [widens, hlogical]

/-- Arithmetic whose left operand is checked once. -/
theorem Typed.Expr.asked_kept (hop : op.isArithmetic = true) {left : Numlet.Expr}
    (hc : l.isConstant = left.isConstant) (h₁ : l.asked hint = first)
    (h₂ : r.asked (rightHint first.type hint) = second)
    (hw : op.widens left first.type second.type = false) {x y : NumType}
    (ht : op.Types first.type second.type x y) :
    (Typed.Expr.binary op l r operandType type span).asked hint = .binary op first second x y span := by
  subst h₁ h₂
  obtain ⟨rfl, rfl, -⟩ := (BinaryOp.types_iff_of_arithmetic hop).mp ht
  have hkeep : ¬ ((l.asked hint).type.rank < (r.asked (rightHint (l.asked hint).type hint)).type.rank ∧
      l.isConstant = true) := by
    rw [hc, ← BinaryOp.widens_of_arithmetic hop, hw]
    exact Bool.false_ne_true
  refine (if_pos hop).trans ?_
  simp only [if_neg hkeep]

/-- Arithmetic whose left operand is checked again. -/
theorem Typed.Expr.asked_widened (hop : op.isArithmetic = true) {left : Numlet.Expr}
    (hc : l.isConstant = left.isConstant) (h₁ : l.asked hint = first)
    (h₂ : r.asked (rightHint first.type hint) = second)
    (hw : op.widens left first.type second.type = true) {again : Typed.Expr}
    (h₃ : l.asked (some second.type) = again) {x y : NumType} (ht : op.Types again.type second.type x y) :
    (Typed.Expr.binary op l r operandType type span).asked hint = .binary op again second x y span := by
  subst h₁ h₂ h₃
  obtain ⟨rfl, rfl, -⟩ := (BinaryOp.types_iff_of_arithmetic hop).mp ht
  have hwiden : (l.asked hint).type.rank < (r.asked (rightHint (l.asked hint).type hint)).type.rank ∧
      l.isConstant = true := by
    rw [hc, ← BinaryOp.widens_of_arithmetic hop, hw]
  refine (if_pos hop).trans ?_
  simp only [if_pos hwiden]

end Arithmetic

/-- Whatever was wanted, the operands of a binary expression were made by runs of their own. -/
theorem ExprRun.binary_made {op : BinaryOp} {left right : Expr} {span : Span} {hint : Option NumType}
    {s s' : Checker} {t : Typed.Expr} (h : ExprRun (.binary op left right span) hint s t s') :
    ∃ l r operandType type, t = .binary op l r operandType type span ∧
      (∃ a s₁ s₂, ExprRun left a s₁ l s₂) ∧ ∃ a s₁ s₂, ExprRun right a s₁ r s₂ := by
  cases h with
  | binary hl hr _ _ => exact ⟨_, _, _, _, rfl, ⟨_, _, _, hl⟩, _, _, _, hr⟩
  | widened _ hr _ ha _ => exact ⟨_, _, _, _, rfl, ⟨_, _, _, ha⟩, _, _, _, hr⟩

/-- The tree of a constant for one wanted type gives that for any other. -/
theorem Expr.asked_of_constant (e : Expr) (hc : e.isConstant = true) {a b : Option NumType}
    {s s' u u' : Checker} {t t' : Typed.Expr} (h : ExprRun e a s t s') (h' : ExprRun e b u t' u') :
    t.asked b = t' := by
  by_cases he : e.takesHint = false
  · rw [h.asked_of_no_hint he]
    exact ((h.any_hint he b).unique (h'.constant_at hc s)).1
  · match e with
    | .literal value span =>
      cases h
      cases h'
      rfl
    | .unary op operand span =>
      have hop : op ≠ .not := by simpa [Expr.takesHint] using he
      cases h with
      | unary h =>
        cases h' with
        | unary h' =>
          rw [if_neg hop] at h'
          have hoperand := Expr.asked_of_constant operand hc h h'
          rw [Typed.Expr.asked_unary hop, hoperand, if_neg hop]
    | .binary op left right span =>
      have hop : op.isArithmetic = true := by simpa [Expr.takesHint] using he
      simp only [isConstant, Bool.and_eq_true] at hc
      obtain ⟨l, r, _, _, rfl, ⟨_, _, _, hl⟩, _, _, _, hr⟩ := h.binary_made
      have hhint : op.operandHint b = b := if_pos hop
      cases h' with
      | binary hl' hr' hw ht =>
        rw [hhint] at hl' hr'
        exact Typed.Expr.asked_kept hop hl.isConstant_eq (Expr.asked_of_constant left hc.1 hl hl')
          (Expr.asked_of_constant right hc.2 hr hr') hw ht
      | widened hl' hr' hw ha ht =>
        rw [hhint] at hl' hr'
        exact Typed.Expr.asked_widened hop hl.isConstant_eq (Expr.asked_of_constant left hc.1 hl hl')
          (Expr.asked_of_constant right hc.2 hr hr') hw (Expr.asked_of_constant left hc.1 hl ha) ht
    | .var .. | .update .. | .assign .. | .convert .. | .call .. => cases hc

/-- A tree is the one for the type that was wanted. -/
theorem ExprRun.asked_self {e : Expr} {hint : Option NumType} {s s' : Checker} {t : Typed.Expr}
    (h : ExprRun e hint s t s') : t.asked hint = t := by
  by_cases he : e.takesHint = false
  · exact h.asked_of_no_hint he hint
  · cases h with
    | literal => rfl
    | @unary op _ _ _ _ _ _ h =>
      have hop : op ≠ .not := by simpa [Expr.takesHint] using he
      have hself := h.asked_self
      rw [if_neg hop] at hself
      rw [Typed.Expr.asked_unary hop, hself, if_neg hop]
    | @binary op _ _ _ _ _ _ _ _ _ _ _ hl hr hw ht =>
      have hop : op.isArithmetic = true := by simpa [Expr.takesHint] using he
      have hl' := hl.asked_self
      have hr' := hr.asked_self
      rw [BinaryOp.operandHint, if_pos hop] at hl' hr'
      exact Typed.Expr.asked_kept hop hl.isConstant_eq hl' hr' hw ht
    | @widened op left _ _ _ _ _ _ _ _ _ _ _ _ hl hr hw ha ht =>
      have hop : op.isArithmetic = true := by simpa [Expr.takesHint] using he
      have hl' := left.asked_of_constant ((BinaryOp.widens_of_arithmetic hop _ _ _).mp hw).2 ha hl
      have hr' := hr.asked_self
      rw [BinaryOp.operandHint, if_pos hop] at hl' hr'
      exact Typed.Expr.asked_widened hop ha.isConstant_eq hl' hr' hw ha.asked_self ht
    | var | update | assign | convert | call | pinningCall => rfl

section Types

variable {op : BinaryOp} {l r : Typed.Expr} {operandType type : NumType} {span : Span}

theorem Typed.Expr.isFloat_asked_binary (ht : op.Types l.type r.type operandType type)
    (hl : ∀ hint, (l.asked hint).type.isFloat = l.type.isFloat)
    (hr : ∀ hint, (r.asked hint).type.isFloat = r.type.isFloat) (hint : Option NumType) :
    ((Typed.Expr.binary op l r operandType type span).asked hint).type.isFloat = type.isFloat := by
  by_cases hop : op.isArithmetic = true
  · obtain ⟨rfl, rfl, -⟩ := (BinaryOp.types_iff_of_arithmetic hop).mp ht
    rw [asked, if_pos hop]
    change (NumType.join _ _).isFloat = _
    rw [isFloat_join, isFloat_join, hl, hr]
  · rw [asked, if_neg hop]
    rfl

theorem Typed.Expr.rank_asked_binary_le (ht : op.Types l.type r.type operandType type)
    (hl : ∀ hint, (l.asked hint).type.rank ≤ max (wanted hint) l.type.rank)
    (hr : ∀ hint, (r.asked hint).type.rank ≤ max (wanted hint) r.type.rank) (hint : Option NumType) :
    ((Typed.Expr.binary op l r operandType type span).asked hint).type.rank ≤
      max (wanted hint) type.rank := by
  by_cases hop : op.isArithmetic = true
  · obtain ⟨rfl, rfl, -⟩ := (BinaryOp.types_iff_of_arithmetic hop).mp ht
    have hfirst := hl hint
    have hright := wanted_rightHint_le (l.asked hint).type hint
    have hsecond := hr (rightHint (l.asked hint).type hint)
    rw [asked, if_pos hop]
    change (NumType.join _ _).rank ≤ _
    rw [rank_join, rank_join]
    split
    · have hagain := hl (some (r.asked (rightHint (l.asked hint).type hint)).type)
      rw [wanted_some] at hagain
      omega
    · omega
  · rw [asked, if_neg hop]
    exact Nat.le_max_right _ _

end Types

/-- No wanted type makes a whole number of a fraction, or the other way round. -/
theorem ExprRun.isFloat_asked {e : Expr} {hint : Option NumType} {s s' : Checker} {t : Typed.Expr}
    (h : ExprRun e hint s t s') (b : Option NumType) : (t.asked b).type.isFloat = t.type.isFloat := by
  match h with
  | @ExprRun.literal value _ _ _ => exact value.isFloat_typeFor _ _
  | @ExprRun.unary op _ _ _ _ _ _ h =>
    by_cases hop : op = .not
    · rw [Typed.Expr.asked, if_pos hop]
    · rw [Typed.Expr.asked_unary hop, if_neg hop]
      exact h.isFloat_asked b
  | .binary hl hr _ ht => exact Typed.Expr.isFloat_asked_binary ht hl.isFloat_asked hr.isFloat_asked b
  | .widened _ hr _ ha ht => exact Typed.Expr.isFloat_asked_binary ht ha.isFloat_asked hr.isFloat_asked b
  | .var _ | .update _ | .assign _ | .convert _ | .call _ _ _ _ _ | .pinningCall _ _ _ _ => rfl

/-- A wanted type widens no further than to itself. -/
theorem ExprRun.rank_asked_le {e : Expr} {hint : Option NumType} {s s' : Checker} {t : Typed.Expr}
    (h : ExprRun e hint s t s') (b : Option NumType) :
    (t.asked b).type.rank ≤ max (wanted b) t.type.rank := by
  match h with
  | @ExprRun.literal value _ _ _ => exact value.rank_typeFor_le _ _
  | @ExprRun.unary op _ _ _ _ _ _ h =>
    by_cases hop : op = .not
    · rw [Typed.Expr.asked, if_pos hop]
      exact Nat.le_max_right _ _
    · rw [Typed.Expr.asked_unary hop, if_neg hop]
      exact h.rank_asked_le b
  | .binary hl hr _ ht => exact Typed.Expr.rank_asked_binary_le ht hl.rank_asked_le hr.rank_asked_le b
  | .widened _ hr _ ha ht => exact Typed.Expr.rank_asked_binary_le ht ha.rank_asked_le hr.rank_asked_le b
  | .var _ | .update _ | .assign _ | .convert _ | .call _ _ _ _ _ | .pinningCall _ _ _ _ =>
    exact Nat.le_max_right _ _

end Numlet
