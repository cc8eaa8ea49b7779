import Numlet.Proofs.Check.Rerun
import Numlet.Proofs.Tree.Outline

/-!
Constants that are checked more than once. A constant leaves no trace in the state, it is accepted whatever is
wanted of it or not at all, and what is wanted changes the widths of its types alone. So the second look that
a constant gets beside a wider operand is one that might be left out, but for the types inside the constant.
-/
namespace Numlet
open Checking

/-- Whatever is wanted of an expression, it is the same up to its types. -/
theorem Typed.Expr.outline_asked (e : Typed.Expr) (hint : Option NumType) :
    (e.asked hint).outline = e.outline := by
  match e with
  | .literal value type span => rfl
  | .unary op operand type span =>
    rw [asked]
    split
    · rfl
    · exact congrArg (Outline.Expr.unary op · span) (operand.outline_asked hint)
  | .binary op left right operandType type span =>
    rw [asked]
    split
    · simp only [outline, left.outline_asked, right.outline_asked]
    · rfl
  | .var .. | .update .. | .assign .. | .convert .. | .call .. => rfl

/-- A part that ends in the state in which it began, and then another one. -/
theorem finalState_bind {ε σ α β : Type} {x : EStateM ε σ α} {f : α → EStateM ε σ β} {s : σ}
    (hx : finalState (x s) = s) (hf : ∀ a, finalState (f a s) = s) : finalState ((x >>= f) s) = s := by
  cases h : x s with
  | ok a s₁ =>
    rw [h] at hx
    obtain rfl : s₁ = s := hx
    rw [bind_of_ok h]
    exact hf a
  | error d s₁ =>
    rw [bind_of_error h]
    rwa [h] at hx

namespace Checking

/-- Puts two checked operands together. -/
def joinOperands (op : BinaryOp) (first second : Typed.Expr) (span : Span) : Checking Typed.Expr := do
  let (operandType, type) ← binaryTypes op first.type second.type span
  return .binary op first second operandType type span

/-- Checks a binary expression with a single look at its left operand. -/
def checkOnce (op : BinaryOp) (left right : Expr) (span : Span) (hint : Option NumType) :
    Checking Typed.Expr := do
  let hint := if op.isArithmetic then hint else none
  let first ← checkExpr left hint
  let second ← checkExpr right (rightHint first.type hint)
  joinOperands op first second span

theorem finalState_joinOperands (op : BinaryOp) (first second : Typed.Expr) (span : Span) (s : Checker) :
    finalState (joinOperands op first second span s) = s := by
  refine finalState_bind ?_ fun _ => rfl
  unfold binaryTypes
  split
  · rfl
  · dsimp only
    split <;> rfl

/-- A constant leaves the state as it is, be it accepted or refused. -/
theorem finalState_of_constant (e : Expr) (hc : e.isConstant = true) (hint : Option NumType) (s : Checker) :
    finalState (checkExpr e hint s) = s := by
  match e with
  | .literal value span =>
    rw [checkExpr]
    rfl
  | .unary op operand span =>
    rw [checkExpr]
    exact finalState_bind (finalState_of_constant operand hc _ s) fun _ => rfl
  | .binary op left right span =>
    simp only [Expr.isConstant, Bool.and_eq_true] at hc
    rw [checkExpr]
    refine finalState_bind (finalState_of_constant left hc.1 _ s) fun first => ?_
    refine finalState_bind (finalState_of_constant right hc.2 _ s) fun second => ?_
    split
    · refine finalState_bind (finalState_of_constant left hc.1 _ s) fun again => ?_
      exact finalState_joinOperands op again second span s
    · exact finalState_joinOperands op first second span s
  | .var .. | .update .. | .assign .. | .convert .. | .call .. => cases hc

end Checking

/-- A constant that is accepted once is accepted in every state and whatever is wanted of it. -/
theorem ExprRun.constant_under {e : Expr} {a : Option NumType} {s s' : Checker} {t : Typed.Expr}
    (h : ExprRun e a s t s') (hc : e.isConstant = true) (b : Option NumType) (u : Checker) :
    ExprRun e b u (t.asked b) u := by
  have htwin : s.Twin s s := ⟨rfl, rfl, rfl, rfl, rfl, rfl, fun _ => rfl, fun _ => rfl⟩
  obtain ⟨s₁, hrun, -⟩ := h.rerun (h.callSettled_of_constant hc s.signatures) htwin b
  exact hrun.constant_at hc u

namespace Checking

/-- Under two wanted types a constant is accepted twice, with the same tree up to the widths of its types, or
refused twice. -/
theorem constant_outcomes {e : Expr} (hc : e.isConstant = true) (s : Checker) (a b : Option NumType) :
    (∃ t t', checkExpr e a s = .ok t s ∧ checkExpr e b s = .ok t' s ∧ t'.outline = t.outline ∧
        t'.type.isFloat = t.type.isFloat) ∨
      ∃ d d', checkExpr e a s = .error d s ∧ checkExpr e b s = .error d' s := by
  have ha := finalState_of_constant e hc a s
  have hb := finalState_of_constant e hc b s
  cases h : checkExpr e a s with
  | ok t s₁ =>
    have hrun := ExprRun.of_check e h
    rw [h] at ha
    obtain rfl : s₁ = s := ha
    exact .inl ⟨t, t.asked b, rfl, (hrun.constant_under hc b s₁).check, t.outline_asked b, hrun.isFloat_asked b⟩
  | error d s₁ =>
    cases h' : checkExpr e b s with
    | ok t' s₂ =>
      have hrun := ((ExprRun.of_check e h').constant_under hc a s).check
      cases h.symm.trans hrun
    | error d' s₂ =>
      rw [h] at ha
      rw [h'] at hb
      obtain rfl : s₁ = s := ha
      obtain rfl : s₂ = s₁ := hb
      exact .inr ⟨d, d', rfl, rfl⟩

section Binary

variable {op : BinaryOp} {left right : Expr} {span : Span} {hint : Option NumType} {s s₁ s₂ s₃ : Checker}
  {first again second : Typed.Expr}

theorem checkOnce_run (hl : checkExpr left (op.operandHint hint) s = .ok first s₁)
    (hr : checkExpr right (rightHint first.type (op.operandHint hint)) s₁ = .ok second s₂) :
    checkOnce op left right span hint s = joinOperands op first second span s₂ :=
  (bind_of_ok hl).trans (bind_of_ok hr)

theorem checkExpr_run_kept (hl : checkExpr left (op.operandHint hint) s = .ok first s₁)
    (hr : checkExpr right (rightHint first.type (op.operandHint hint)) s₁ = .ok second s₂)
    (hw : op.widens left first.type second.type = false) :
    checkExpr (.binary op left right span) hint s = joinOperands op first second span s₂ := by
  rw [checkExpr]
  refine (bind_of_ok hl).trans ((bind_of_ok hr).trans ?_)
  rw [if_neg (by simpa [BinaryOp.widens] using hw)]
  rfl

theorem checkExpr_run_again (hl : checkExpr left (op.operandHint hint) s = .ok first s₁)
    (hr : checkExpr right (rightHint first.type (op.operandHint hint)) s₁ = .ok second s₂)
    (hw : op.widens left first.type second.type = true)
    (ha : checkExpr left (some second.type) s₂ = .ok again s₃) :
    checkExpr (.binary op left right span) hint s = joinOperands op again second span s₃ := by
  rw [checkExpr]
  refine (bind_of_ok hl).trans ((bind_of_ok hr).trans ?_)
  rw [if_pos (by simpa [BinaryOp.widens] using hw)]
  exact bind_of_ok ha

/-- After its operands have been looked at, a binary expression with a constant on its left is put together from
the right operand and the constant, which has perhaps been checked again. -/
theorem checkExpr_run_constant (hc : left.isConstant = true)
    (hl : checkExpr left (op.operandHint hint) s = .ok first s₁)
    (hr : checkExpr right (rightHint first.type (op.operandHint hint)) s₁ = .ok second s₂) :
    ∃ again : Typed.Expr,
      checkExpr (.binary op left right span) hint s = joinOperands op again second span s₂ ∧
      again.type.join second.type = first.type.join second.type ∧
      (op.isLogical = false → first.type.rank < second.type.rank →
        checkExpr left (some second.type) s₂ = .ok again s₂) ∧
      again.outline = first.outline ∧ again.type.isFloat = first.type.isFloat := by
  have hfirst := ExprRun.of_check left hl
  cases hw : op.widens left first.type second.type with
  | false =>
    refine ⟨first, checkExpr_run_kept hl hr hw, rfl, fun hop hlt => ?_, rfl, rfl⟩
    simp [BinaryOp.widens, hop, hlt, hc] at hw
  | true =>
    have hagain := hfirst.constant_under hc (some second.type) s₂
    have hlt : first.type.rank < second.type.rank := by
      simp only [BinaryOp.widens, Bool.and_eq_true, decide_eq_true_eq] at hw
      exact hw.1.2
    exact ⟨_, checkExpr_run_again hl hr hw hagain.check,
      (left.hintBounded_of_constant hc).join_again hfirst hagain hlt, fun _ _ => hagain.check,
      first.outline_asked _, hfirst.isFloat_asked _⟩

/-- Only the wider one of the operand types counts. -/
theorem joinOperands_outcomes (hjoin : again.type.join second.type = first.type.join second.type)
    (op : BinaryOp) (span : Span) (s : Checker) :
    (∃ operandType type,
      joinOperands op first second span s = .ok (.binary op first second operandType type span) s ∧
      joinOperands op again second span s = .ok (.binary op again second operandType type span) s) ∨
    ∃ d, joinOperands op first second span s = .error d s ∧
      joinOperands op again second span s = .error d s := by
  have hsame : binaryTypes op again.type second.type span = binaryTypes op first.type second.type span := by
    unfold binaryTypes
    rw [hjoin]
  have hstate := finalState_joinOperands op first second span s
  unfold joinOperands at hstate ⊢
  rw [hsame]
  cases htypes : binaryTypes op first.type second.type span s with
  | ok types s₁ =>
    obtain ⟨operandType, type⟩ := types
    rw [bind_of_ok htypes] at hstate
    obtain rfl : s₁ = s := hstate
    exact .inl ⟨operandType, type, bind_of_ok htypes, bind_of_ok htypes⟩
  | error d s₁ =>
    rw [bind_of_error htypes] at hstate
    obtain rfl : s₁ = s := hstate
    exact .inr ⟨d, bind_of_error htypes, bind_of_error htypes⟩

end Binary

end Checking

/-- Checking a constant again is harmless. Under any two wanted types it is accepted twice or refused twice, and
the state stays as it is; the trees are the same up to their types, which are whole or fractional together. A
binary expression with the constant on its left ends as it does with a single look at the constant: it fails
alike, or it has the same operand type and type, and only the constant in it may have got other types. -/
theorem constants_recheck_alike {e : Expr} (hc : e.isConstant = true) (s : Checker) :
    (∀ a b, (∃ t t', checkExpr e a s = .ok t s ∧ checkExpr e b s = .ok t' s ∧ t'.outline = t.outline ∧
        t'.type.isFloat = t.type.isFloat) ∨
      ∃ d d', checkExpr e a s = .error d s ∧ checkExpr e b s = .error d' s) ∧
    ∀ op right span hint, (∃ first again second operandType type s',
        checkOnce op e right span hint s = .ok (.binary op first second operandType type span) s' ∧
        checkExpr (.binary op e right span) hint s = .ok (.binary op again second operandType type span) s' ∧
        (op.isLogical = false → first.type.rank < second.type.rank →
          checkExpr e (some second.type) s' = .ok again s') ∧
        again.outline = first.outline ∧ again.type.isFloat = first.type.isFloat) ∨
      ∃ d s', checkOnce op e right span hint s = .error d s' ∧
        checkExpr (.binary op e right span) hint s = .error d s' := by
  refine ⟨constant_outcomes hc s, fun op right span hint => ?_⟩
  cases hl : checkExpr e (op.operandHint hint) s with
  | error d s₁ =>
    rw [checkExpr]
    exact .inr ⟨d, s₁, bind_of_error hl, bind_of_error hl⟩
  | ok first s₁ =>
    cases hr : checkExpr right (rightHint first.type (op.operandHint hint)) s₁ with
    | error d s₂ =>
      rw [checkExpr]
      exact .inr ⟨d, s₂, (bind_of_ok hl).trans (bind_of_error hr), (bind_of_ok hl).trans (bind_of_error hr)⟩
    | ok second s₂ =>
      obtain ⟨again, hagain, hjoin, hrest⟩ := checkExpr_run_constant hc hl hr
      rw [checkOnce_run hl hr, hagain]
      obtain ⟨operandType, type, honce, htwice⟩ | ⟨d, honce, htwice⟩ := joinOperands_outcomes hjoin op span s₂
      · exact .inl ⟨first, again, second, operandType, type, s₂, honce, htwice, hrest⟩
      · exact .inr ⟨d, s₂, honce, htwice⟩

/-- The constant `0.5 + 7 % 2`, with the same span for all its parts. -/
def halfAndRest (span : Span) : Expr :=
  .binary .add (.literal (.fraction (.ofRatio false 1 2)) span)
    (.binary .remainder (.literal (.int 7) span) (.literal (.int 2) span) span) span

/-- A state in which `d` is an `f64`. -/
def wideInSight : Checker :=
  { Checker.new {} with scope := ({} : Scope).declare "d" "d" .f64 true }

/-- Before `* d` the constant is an `f32` at the first look and an `f64` at the second. -/
theorem constants_recheck_alike_beside_wider :
    ∃ span first again second, (halfAndRest span).isConstant = true ∧
      checkExpr (halfAndRest span) none wideInSight = .ok first wideInSight ∧
      checkExpr (halfAndRest span) (some .f64) wideInSight = .ok again wideInSight ∧
      first.type = .f32 ∧ again.type = .f64 ∧ again.outline = first.outline ∧
      checkOnce .multiply (halfAndRest span) (.var "d" span) span none wideInSight =
        .ok (.binary .multiply first second .f64 .f64 span) wideInSight ∧
      checkExpr (.binary .multiply (halfAndRest span) (.var "d" span) span) none wideInSight =
        .ok (.binary .multiply again second .f64 .f64 span) wideInSight := by
  obtain ⟨-, hbinary⟩ := constants_recheck_alike (e := halfAndRest default) rfl wideInSight
  obtain ⟨first, again, second, x, y, s', honce, htwice, hagain, houtline, -⟩ | ⟨d, s', honce, -⟩ :=
    hbinary .multiply (.var "d" default) default none
  · cases honce
    have hwider := hagain rfl (by decide)
    cases hwider
    exact ⟨default, _, _, _, rfl, rfl, rfl, rfl, rfl, houtline, rfl, htwice⟩
  · cases honce

end Numlet
