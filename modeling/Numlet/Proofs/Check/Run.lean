import Numlet.Proofs.Check.Step

/-!
Runs of the checker over expressions, as a relation with one rule for each thing that can happen.
A successful check is such a run, so what all checks have in common is proved by induction on runs.
-/
namespace Numlet
open Checking

/-- The type that an operator hands down to its left operand. -/
def BinaryOp.operandHint (op : BinaryOp) (hint : Option NumType) : Option NumType :=
  if op.isArithmetic then hint else none

/-- The types that a binary expression takes on. -/
def BinaryOp.Types (op : BinaryOp) (left right operandType type : NumType) : Prop :=
  if op.isLogical then operandType = .i32 ∧ type = .i32
  else operandType = left.join right ∧ (op = .remainder → operandType.isFloat = false) ∧
    type = if op.isComparison then .i32 else operandType

/-- Whether a left operand is checked again at the width of the right one. -/
def BinaryOp.widens (op : BinaryOp) (left : Expr) (first second : NumType) : Bool :=
  !op.isLogical && first.rank < second.rank && left.isConstant

mutual

/-- `ExprRun e hint s t s'`: from the state `s`, where `hint` is wanted, checking `e` gives `t` and
ends in the state `s'`. -/
inductive ExprRun : Expr → Option NumType → Checker → Typed.Expr → Checker → Prop
  | literal {value span hint s} :
      ExprRun (.literal value span) hint s (.literal value (value.typeFor hint) span) s
  | var {name span hint s v} (hv : s.scope.find? name = some v) :
      ExprRun (.var name span) hint s (.var v.slot (s.readType v.slot v.type) span) s
  | binary {op left right span hint s first s₁ second s₂ operandType type}
      (hl : ExprRun left (op.operandHint hint) s first s₁)
      (hr : ExprRun right (rightHint first.type (op.operandHint hint)) s₁ second s₂)
      (hw : op.widens left first.type second.type = false)
      (ht : op.Types first.type second.type operandType type) :
      ExprRun (.binary op left right span) hint s (.binary op first second operandType type span) s₂
  | widened {op left right span hint s first s₁ second s₂ again s₃ operandType type}
      (hl : ExprRun left (op.operandHint hint) s first s₁)
      (hr : ExprRun right (rightHint first.type (op.operandHint hint)) s₁ second s₂)
      (hw : op.widens left first.type second.type = true)
      (ha : ExprRun left (some second.type) s₂ again s₃)
      (ht : op.Types again.type second.type operandType type) :
      ExprRun (.binary op left right span) hint s (.binary op again second operandType type span) s₃
  | unary {op operand span hint s typed s₁}
      (h : ExprRun operand (if op = .not then none else hint) s typed s₁) :
      ExprRun (.unary op operand span) hint s
        (.unary op typed (if op = .not then .i32 else typed.type) span) s₁
  | update {op target targetSpan span hint s v} (hv : s.scope.find? target = some v) :
      ExprRun (.update op target targetSpan span) hint s
        (.update op v.slot (s.readType v.slot v.type) span) s
  | assign {name nameSpan value span hint s slot typed type s₁}
      (h : AssignRun name nameSpan.start value s slot typed type s₁) :
      ExprRun (.assign (.var name nameSpan) value span) hint s
        (.assign slot typed (s₁.readType slot type) span) s₁
  | convert {operand written target span hint s typed s₁}
      (h : ExprRun operand (if target.isFloat then some target else none) s typed s₁) :
      ExprRun (.convert operand written target span) hint s
        (.convert typed typed.type target target span) (s₁.noted written typed.type)
  | call {callee arguments span hint s signature typed s₁ final type}
      (hs : s.signatures.find? callee = some signature)
      (h : ArgumentsRun arguments signature.parameters s typed s₁)
      (hf : s₁.signatures.find? callee = some final)
      (hc : (final.resultFixed || final.checked) = true) (hr : final.result = some type) :
      ExprRun (.call callee arguments span) hint s
        (.call callee typed signature.parameters span type span) s₁
  | pinningCall {callee arguments span hint s signature typed s₁ final}
      (hs : s.signatures.find? callee = some signature)
      (h : ArgumentsRun arguments signature.parameters s typed s₁)
      (hf : s₁.signatures.find? callee = some final)
      (hc : (final.resultFixed || final.checked) = false) :
      ExprRun (.call callee arguments span) hint s
        (.call callee typed signature.parameters span (final.result.getD .i32) span)
        (s₁.pinned callee final (final.result.getD .i32))

/-- The slot, the value and the new type of the target of an assignment. -/
inductive AssignRun :
    String → Position → Expr → Checker → String → Typed.Expr → NumType → Checker → Prop
  | bound {name place value s typed s₁ v type}
      (h : ExprRun value ((s.scope.find? name).map (·.type)) s typed s₁)
      (hv : s₁.scope.find? name = some v)
      (ht : NumType.assign? v.type typed.type v.fixed = some type) :
      AssignRun name place value s v.slot typed type (s₁.assigned name v.slot type)
  | fresh {name place value s typed s₁}
      (h : ExprRun value ((s.scope.find? name).map (·.type)) s typed s₁)
      (hv : s₁.scope.find? name = none) (ha : s₁.options.autoDeclare = true) :
      AssignRun name place value s (s₁.nextSlot name) typed typed.type
        ((s₁.reported (.autoDeclared name typed.type place)).declared name typed.type false)

/-- Arguments, each checked against the type of its parameter. -/
inductive ArgumentsRun :
    List Expr → List NumType → Checker → List Typed.Expr → Checker → Prop
  | nil {s} : ArgumentsRun [] [] s [] s
  | cons {argument arguments parameter parameters s typed s₁ rest s₂}
      (h : ExprRun argument (some parameter) s typed s₁) (hp : typed.type.rank ≤ parameter.rank)
      (hs : ArgumentsRun arguments parameters s₁ rest s₂) :
      ArgumentsRun (argument :: arguments) (parameter :: parameters) s (typed :: rest) s₂

end

theorem binaryTypes_eq_ok {op : BinaryOp} {left right operandType type : NumType} {span : Span}
    {s s' : Checker} (h : binaryTypes op left right span s = .ok (operandType, type) s') :
    op.Types left right operandType type ∧ s' = s := by
  unfold binaryTypes at h
  unfold BinaryOp.Types
  by_cases hl : op.isLogical = true
  · rw [if_pos hl] at h
    cases h
    simp [hl]
  · rw [if_neg hl] at h
    by_cases hr : op = .remainder ∧ (left.join right).isFloat = true
    · simp only [hr, and_self, if_true] at h
      cases h
    · simp only [hr, if_false] at h
      cases h
      rw [if_neg hl]
      refine ⟨⟨rfl, ?_, rfl⟩, rfl⟩
      intro ho
      simpa [ho] using hr

/-- What an assignment does, given the run of its value. -/
theorem assignTo_eq_ok {target : Expr} {check : Option NumType → Checking Typed.Expr}
    {s s' : Checker} {slot : String} {typed : Typed.Expr} {type : NumType}
    (h : assignTo target check s = .ok (slot, typed, type) s') :
    ∃ name span s₁, target = .var name span ∧
      check ((s.scope.find? name).map (·.type)) s = .ok typed s₁ ∧
      ((∃ v, s₁.scope.find? name = some v ∧
          NumType.assign? v.type typed.type v.fixed = some type ∧ slot = v.slot ∧
          s' = s₁.assigned name v.slot type) ∨
        (s₁.scope.find? name = none ∧ s₁.options.autoDeclare = true ∧ slot = s₁.nextSlot name ∧
          type = typed.type ∧
          s' = (s₁.reported (.autoDeclared name typed.type span.start)).declared name typed.type false)) := by
  cases target with
  | var name span =>
    obtain ⟨found, s₀, hf, k⟩ := bind_eq_ok.mp h
    cases hf
    obtain ⟨value, s₁, hv, k₁⟩ := bind_eq_ok.mp k
    obtain ⟨again, s₂, hf, k₂⟩ := bind_eq_ok.mp k₁
    cases hf
    refine ⟨name, span, s₁, rfl, ?_⟩
    cases hb : s₁.scope.find? name with
    | some v =>
      rw [hb] at k₂
      cases ht : NumType.assign? v.type value.type v.fixed with
      | none =>
        simp only [ht] at k₂
        cases k₂
      | some t =>
        simp only [ht] at k₂
        obtain ⟨_, s₃, hm, k₃⟩ := bind_eq_ok.mp k₂
        cases hm
        rw [bind_of_ok (record_run _ _ _)] at k₃
        cases k₃
        exact ⟨hv, .inl ⟨v, rfl, ht, rfl, rfl⟩⟩
    | none =>
      rw [hb] at k₂
      obtain ⟨st, s₃, hg, k₃⟩ := bind_eq_ok.mp k₂
      cases hg
      by_cases ha : s₁.options.autoDeclare = true
      · rw [if_pos ha] at k₃
        obtain ⟨_, s₃, hm, k₄⟩ := bind_eq_ok.mp k₃
        cases hm
        rw [bind_of_ok (declareLocal_run _ _ _ _)] at k₄
        cases k₄
        exact ⟨hv, .inr ⟨rfl, ha, rfl, rfl, rfl⟩⟩
      · rw [if_neg ha] at k₃
        cases k₃
  | literal | binary | unary | update | assign | convert | call => cases h

theorem callWith_eq_ok {callee : String} {arguments : List Expr} {span : Span}
    {check : List NumType → Checking (List Typed.Expr)} {s s' : Checker} {typed : List Typed.Expr}
    {parameters : List NumType}
    (h : callWith callee arguments span check s = .ok (typed, parameters) s') :
    ∃ signature, s.signatures.find? callee = some signature ∧
      arguments.length = signature.parameters.length ∧ parameters = signature.parameters ∧
      check signature.parameters s = .ok typed s' := by
  obtain ⟨signature, s₁, hs, k⟩ := bind_eq_ok.mp h
  obtain ⟨hf, rfl⟩ := signatureOf_eq_ok hs
  obtain ⟨_, s₂, ha, k₁⟩ := bind_eq_ok.mp k
  obtain ⟨hlen, rfl⟩ := checkArity_eq_ok ha
  obtain ⟨args, s₃, hc, k₂⟩ := bind_eq_ok.mp k₁
  cases k₂
  exact ⟨signature, hf, hlen, rfl, hc⟩

/-- What a binary expression does: its operands are checked in turn, and a constant on the left perhaps
again. -/
theorem checkExpr_binary_eq_ok {op : BinaryOp} {left right : Expr} {span : Span} {hint : Option NumType}
    {s s' : Checker} {t : Typed.Expr} (h : checkExpr (.binary op left right span) hint s = .ok t s') :
    ∃ first s₁ second s₂, checkExpr left (op.operandHint hint) s = .ok first s₁ ∧
      checkExpr right (rightHint first.type (op.operandHint hint)) s₁ = .ok second s₂ ∧
      ((op.widens left first.type second.type = false ∧ s' = s₂ ∧ ∃ operandType type,
          op.Types first.type second.type operandType type ∧
          t = .binary op first second operandType type span) ∨
        (op.widens left first.type second.type = true ∧ ∃ again operandType type,
          checkExpr left (some second.type) s₂ = .ok again s' ∧
          op.Types again.type second.type operandType type ∧
          t = .binary op again second operandType type span)) := by
  rw [checkExpr] at h
  obtain ⟨first, s₁, hl, k⟩ := bind_eq_ok.mp h
  obtain ⟨second, s₂, hr, k₁⟩ := bind_eq_ok.mp k
  refine ⟨first, s₁, second, s₂, hl, hr, ?_⟩
  cases hw : op.widens left first.type second.type with
  | false =>
    rw [if_neg (by simpa [BinaryOp.widens] using hw)] at k₁
    obtain ⟨again, s₃, ha, k₂⟩ := bind_eq_ok.mp k₁
    cases ha
    obtain ⟨⟨operandType, type⟩, s₄, ht, k₃⟩ := bind_eq_ok.mp k₂
    obtain ⟨htypes, rfl⟩ := binaryTypes_eq_ok ht
    cases k₃
    exact .inl ⟨rfl, rfl, operandType, type, htypes, rfl⟩
  | true =>
    have hw' : (!op.isLogical && decide (first.type.rank < second.type.rank) &&
        left.isConstant) = true := hw
    rw [if_pos hw'] at k₁
    obtain ⟨again, s₃, ha, k₂⟩ := bind_eq_ok.mp k₁
    obtain ⟨⟨operandType, type⟩, s₄, ht, k₃⟩ := bind_eq_ok.mp k₂
    obtain ⟨htypes, rfl⟩ := binaryTypes_eq_ok ht
    cases k₃
    exact .inr ⟨rfl, again, operandType, type, ha, htypes, rfl⟩

theorem checkExpr_convert_eq_ok {operand : Expr} {written : Option NumType} {target : NumType} {span : Span}
    {hint : Option NumType} {s s' : Checker} {t : Typed.Expr}
    (h : checkExpr (.convert operand written target span) hint s = .ok t s') :
    ∃ typed s₁, checkExpr operand (if target.isFloat then some target else none) s = .ok typed s₁ ∧
      t = .convert typed typed.type target target span ∧ s' = s₁.noted written typed.type := by
  rw [checkExpr] at h
  obtain ⟨typed, s₁, ho, k⟩ := bind_eq_ok.mp h
  refine ⟨typed, s₁, ho, ?_⟩
  cases written with
  | none =>
    cases k
    exact ⟨rfl, rfl⟩
  | some declared =>
    unfold Checker.noted
    by_cases hd : declared ≠ typed.type
    · simp only [hd, ne_eq, not_false_eq_true, if_true] at k ⊢
      cases k
      exact ⟨rfl, rfl⟩
    · simp only [hd, if_false] at k ⊢
      cases k
      exact ⟨rfl, rfl⟩

/-- What a call for its value does: the result is known, or it is pinned. -/
theorem checkExpr_call_eq_ok {callee : String} {arguments : List Expr} {span : Span}
    {hint : Option NumType} {s s' : Checker} {t : Typed.Expr}
    (h : checkExpr (.call callee arguments span) hint s = .ok t s') :
    ∃ signature typed s₁ final, s.signatures.find? callee = some signature ∧
      arguments.length = signature.parameters.length ∧
      checkArguments callee arguments signature.parameters s = .ok typed s₁ ∧
      s₁.signatures.find? callee = some final ∧
      (((final.resultFixed || final.checked) = true ∧ s' = s₁ ∧ ∃ type, final.result = some type ∧
          t = .call callee typed signature.parameters span type span) ∨
        ((final.resultFixed || final.checked) = false ∧
          t = .call callee typed signature.parameters span (final.result.getD .i32) span ∧
          s' = s₁.pinned callee final (final.result.getD .i32))) := by
  rw [checkExpr] at h
  obtain ⟨⟨typed, parameters⟩, s₁, hc, k⟩ := bind_eq_ok.mp h
  obtain ⟨signature, hs, hlen, rfl, ha⟩ := callWith_eq_ok hc
  obtain ⟨type, s₂, hr, k₁⟩ := bind_eq_ok.mp k
  cases k₁
  obtain ⟨final, hf, ⟨hx, ht, rfl⟩ | ⟨hx, rfl, rfl⟩⟩ := callResult_eq_ok hr
  · exact ⟨signature, typed, _, final, hs, hlen, ha, hf, .inl ⟨hx, rfl, type, ht, rfl⟩⟩
  · exact ⟨signature, typed, s₁, final, hs, hlen, ha, hf, .inr ⟨hx, rfl, rfl⟩⟩

theorem checkArguments_cons_eq_ok {callee : String} {argument : Expr} {arguments : List Expr}
    {parameter : NumType} {parameters : List NumType} {s s' : Checker} {typed : List Typed.Expr}
    (h : checkArguments callee (argument :: arguments) (parameter :: parameters) s = .ok typed s') :
    ∃ t s₁ rest, checkExpr argument (some parameter) s = .ok t s₁ ∧ t.type.rank ≤ parameter.rank ∧
      checkArguments callee arguments parameters s₁ = .ok rest s' ∧ typed = t :: rest := by
  rw [checkArguments] at h
  obtain ⟨t, s₁, ht, k⟩ := bind_eq_ok.mp h
  by_cases hp : (NumType.assign? parameter t.type true).isNone = true
  · rw [if_pos hp] at k
    cases k
  · rw [if_neg hp] at k
    obtain ⟨rest, s₂, hr, k₁⟩ := bind_eq_ok.mp k
    cases k₁
    rw [NumType.assign?_fixed_isNone] at hp
    exact ⟨t, s₁, rest, ht, by omega, hr, rfl⟩

/-- A successful assignment is a run if its value is. -/
theorem AssignRun.of_value {target value : Expr} {s s' : Checker} {slot : String} {typed : Typed.Expr}
    {type : NumType}
    (hvalue : ∀ {hint s s' t}, checkExpr value hint s = .ok t s' → ExprRun value hint s t s')
    (h : assignTo target (fun hint => checkExpr value hint) s = .ok (slot, typed, type) s') :
    ∃ name span, target = .var name span ∧ AssignRun name span.start value s slot typed type s' := by
  obtain ⟨name, span, s₁, rfl, hv, hb⟩ := assignTo_eq_ok h
  refine ⟨name, span, rfl, ?_⟩
  obtain ⟨v, hf, ht, rfl, rfl⟩ | ⟨hf, ha, rfl, rfl, rfl⟩ := hb
  · exact .bound (hvalue hv) hf ht
  · exact .fresh (hvalue hv) hf ha

mutual

theorem ExprRun.of_check (e : Expr) {hint : Option NumType} {s s' : Checker} {t : Typed.Expr}
    (h : checkExpr e hint s = .ok t s') : ExprRun e hint s t s' := by
  match e with
  | .literal value span =>
    simp only [checkExpr, pure_eq_ok] at h
    obtain ⟨rfl, rfl⟩ := h
    exact .literal
  | .var name span =>
    rw [checkExpr] at h
    obtain ⟨v, s₁, hv, k⟩ := bind_eq_ok.mp h
    obtain ⟨hf, rfl⟩ := variableOf_eq_ok hv
    cases k
    exact .var hf
  | .binary op left right span =>
    obtain ⟨first, s₁, second, s₂, hl, hr, hb⟩ := checkExpr_binary_eq_ok h
    have hleft := ExprRun.of_check left hl
    have hright := ExprRun.of_check right hr
    obtain ⟨hw, rfl, operandType, type, htypes, rfl⟩ | ⟨hw, again, operandType, type, ha, htypes, rfl⟩ := hb
    · exact .binary hleft hright hw htypes
    · exact .widened hleft hright hw (ExprRun.of_check left ha) htypes
  | .unary op operand span =>
    rw [checkExpr] at h
    obtain ⟨typed, s₁, ho, k⟩ := bind_eq_ok.mp h
    cases k
    exact .unary (ExprRun.of_check operand ho)
  | .update op target targetSpan span =>
    rw [checkExpr] at h
    obtain ⟨v, s₁, hv, k⟩ := bind_eq_ok.mp h
    obtain ⟨hf, rfl⟩ := variableOf_eq_ok hv
    cases k
    exact .update hf
  | .assign target value span =>
    rw [checkExpr] at h
    obtain ⟨⟨slot, typed, type⟩, s₁, ha, k⟩ := bind_eq_ok.mp h
    obtain ⟨name, nameSpan, rfl, hrun⟩ := AssignRun.of_value (fun h => ExprRun.of_check value h) ha
    cases k
    exact .assign hrun
  | .convert operand written target span =>
    obtain ⟨typed, s₁, ho, rfl, rfl⟩ := checkExpr_convert_eq_ok h
    exact .convert (ExprRun.of_check operand ho)
  | .call callee arguments span =>
    obtain ⟨signature, typed, s₁, final, hs, hlen, ha, hf, hr⟩ := checkExpr_call_eq_ok h
    have hargs := ArgumentsRun.of_check callee arguments hlen ha
    obtain ⟨hx, rfl, type, ht, rfl⟩ | ⟨hx, rfl, rfl⟩ := hr
    · exact .call hs hargs hf hx ht
    · exact .pinningCall hs hargs hf hx

theorem ArgumentsRun.of_check (callee : String) (arguments : List Expr)
    {parameters : List NumType} {s s' : Checker} {typed : List Typed.Expr}
    (hlen : arguments.length = parameters.length)
    (h : checkArguments callee arguments parameters s = .ok typed s') :
    ArgumentsRun arguments parameters s typed s' := by
  match arguments, parameters with
  | [], [] =>
    rw [checkArguments] at h
    · cases h
      exact .nil
    · simp
  | argument :: arguments, parameter :: parameters =>
    obtain ⟨t, s₁, rest, ht, hp, hr, rfl⟩ := checkArguments_cons_eq_ok h
    exact .cons (ExprRun.of_check argument ht) hp
      (ArgumentsRun.of_check callee arguments (by simpa using hlen) hr)

end

theorem AssignRun.of_check (target value : Expr) {s s' : Checker} {slot : String}
    {typed : Typed.Expr} {type : NumType}
    (h : assignTo target (fun hint => checkExpr value hint) s = .ok (slot, typed, type) s') :
    ∃ name span, target = .var name span ∧ AssignRun name span.start value s slot typed type s' :=
  AssignRun.of_value (fun h => ExprRun.of_check value h) h

end Numlet
