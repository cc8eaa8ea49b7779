import Numlet.Check.State

/-!
Checking expressions. The context may want a type, which only chooses the width of literals.
-/
namespace Numlet.Checking

/-- Checks an assignment, whose value is checked by `check`, and gives the slot, the value and the new
type of the target. The value is checked before the target is bound. -/
def assignTo (target : Expr) (check : Option NumType → Checking Typed.Expr) :
    Checking (String × Typed.Expr × NumType) :=
  match target with
  | .var name span => do
    let hint := (← lookup? name).map (·.type)
    let value ← check hint
    match ← lookup? name with
    | some v =>
      match NumType.assign? v.type value.type v.fixed with
      | none => throw (.mismatch v.type.name value.type.name value.span)
      | some type =>
        modify fun s => { s with scope := s.scope.retype name type }
        record v.slot type
        return (v.slot, value, type)
    | none =>
      if (← get).options.autoDeclare then
        report (.autoDeclared name value.type span.start)
        let slot ← declareLocal name value.type false
        return (slot, value, value.type)
      else throw (.undeclared name span)
  | other => throw (.malformed "assignment target must be a variable" other.span)

/-- Checks that a call has one argument for each parameter. -/
def checkArity (callee : String) (arguments : List Expr) (expected : Nat) (span : Span) :
    Checking Unit :=
  let received := arguments.length
  if received < expected then throw ⟨.missingArguments callee expected received, span.stop⟩
  else match arguments.drop expected with
    | [] => return
    | extra :: _ => throw ⟨.unexpectedArguments callee expected received, extra.span.start⟩

/-- Checks a call, whose arguments are checked by `check`, and gives them with the types of the
parameters. -/
def callWith (callee : String) (arguments : List Expr) (span : Span)
    (check : List NumType → Checking (List Typed.Expr)) :
    Checking (List Typed.Expr × List NumType) := do
  let signature ← signatureOf callee span
  checkArity callee arguments signature.parameters.length span
  let arguments ← check signature.parameters
  return (arguments, signature.parameters)

/-- The result type of a call whose value is used. A result that is still being inferred is pinned to
what it is now. -/
def callResult (callee : String) (span : Span) : Checking NumType := do
  let signature ← signatureOf callee span
  if signature.resultFixed || signature.checked then
    match signature.result with
    | some type => return type
    | none => throw (.mismatch "a value" ("void from `" ++ callee ++ "`") span)
  else
    let type := signature.result.getD .i32
    report (.resultPinned callee type)
    setSignature callee { signature with result := some type, resultFixed := true }
    return type

/-- The type wanted of the right operand, when the left one has been checked. -/
def rightHint (left : NumType) (hint : Option NumType) : Option NumType :=
  if left = .f64 then some .f64 else hint

/-- The operand type and the type of a binary expression. A remainder needs whole numbers. -/
def binaryTypes (op : BinaryOp) (left right : NumType) (span : Span) :
    Checking (NumType × NumType) :=
  if op.isLogical then return (.i32, .i32)
  else
    let operand := left.join right
    if op = .remainder ∧ operand.isFloat then throw (.mismatch "i32 or i64" operand.name span)
    else return (operand, if op.isComparison then .i32 else operand)

mutual

def checkExpr : Expr → Option NumType → Checking Typed.Expr
  | .literal value span, hint => return .literal value (value.typeFor hint) span
  | .var name span, _ => do
    let v ← variableOf name span
    return .var v.slot (← readType v.slot v.type) span
  | .binary op left right span, hint => do
    let hint := if op.isArithmetic then hint else none
    let first ← checkExpr left hint
    let second ← checkExpr right (rightHint first.type hint)
    -- A constant takes the width of a wider operand to its right.
    let first ←
      if !op.isLogical && first.type.rank < second.type.rank && left.isConstant then
        checkExpr left (some second.type)
      else pure first
    let (operandType, type) ← binaryTypes op first.type second.type span
    return .binary op first second operandType type span
  | .unary op operand span, hint => do
    let operand ← checkExpr operand (if op = .not then none else hint)
    return .unary op operand (if op = .not then .i32 else operand.type) span
  | .update op target targetSpan span, _ => do
    let v ← variableOf target targetSpan
    return .update op v.slot (← readType v.slot v.type) span
  | .assign target value span, _ => do
    let (slot, value, type) ← assignTo target (fun hint => checkExpr value hint)
    return .assign slot value (← readType slot type) span
  | .convert operand source target span, _ => do
    let operand ← checkExpr operand (if target.isFloat then some target else none)
    if let some declared := source then
      if declared ≠ operand.type then report (.conversionDiffers declared operand.type)
    return .convert operand operand.type target target span
  | .call callee arguments span, _ => do
    let (arguments, parameterTypes) ←
      callWith callee arguments span (fun types => checkArguments callee arguments types)
    let type ← callResult callee span
    return .call callee arguments parameterTypes span type span

/-- Checks arguments against the types of the parameters, from the left. -/
def checkArguments (callee : String) : List Expr → List NumType → Checking (List Typed.Expr)
  | argument :: arguments, parameter :: parameters => do
    let typed ← checkExpr argument (some parameter)
    if (NumType.assign? parameter typed.type true).isNone then
      throw ⟨.argumentTypeMismatch callee parameter typed.type, typed.span.start⟩
    return typed :: (← checkArguments callee arguments parameters)
  | _, _ => return []

end

/-- A call as a statement, with its arguments and the types of the parameters. -/
def checkCall (callee : String) (arguments : List Expr) (span : Span) :
    Checking (List Typed.Expr × List NumType) :=
  callWith callee arguments span (checkArguments callee arguments)

end Numlet.Checking
