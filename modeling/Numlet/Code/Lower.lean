import Numlet.Code.State

/-!
Lowering of expressions and statements. An expression leaves one value of its type on the stack; a
statement leaves the stack as it was.
-/
namespace Numlet.Lowering

/-- Turns a value into one that is zero or one, and zero exactly when it was. -/
def truth (type : NumType) : Lowering Unit := do
  emit (.whole type 0)
  emit (.numeric .ne type)

/-- Turns a value into an `i32` that is zero exactly when it was. -/
def asCondition (type : NumType) : Lowering Unit := do
  if type ≠ .i32 then truth type

/-- Applies an operator to the value on top of the stack. -/
def applyUnary (op : UnaryOp) (type : NumType) : Lowering Unit := do
  match op with
  | .plus => return
  | .negate =>
    emit (.whole type (-1))
    emit (.numeric .mul type)
  | .not =>
    if type.isInteger then emit (.eqz type)
    else
      emit (.whole type 0)
      emit (.numeric .eq type)

/-- Steps a local; the value before the step stays on the stack. -/
def step (op : UpdateOp) (slot : String) (type : NumType) (span : Span) : Lowering Unit := do
  let _ ← load slot type span
  let _ ← load slot type span
  emit (.whole type 1)
  emit (.numeric (match op with
    | .increment => .add
    | .decrement => .sub) type)
  let _ ← store slot type span

mutual

def lowerExpr : Typed.Expr → Lowering Unit
  | .literal value type _ => emit (.const type value)
  | .var slot type span => discard (load slot type span)
  | .binary .and left right _ _ _ => do
    lowerExpr left
    asCondition left.type
    emit (.ifValue .i32)
    lowerExpr right
    truth right.type
    emit .orElse
    emit (.whole .i32 0)
    emit .finish
  | .binary .or left right _ _ _ => do
    lowerExpr left
    asCondition left.type
    emit (.ifValue .i32)
    emit (.whole .i32 1)
    emit .orElse
    lowerExpr right
    truth right.type
    emit .finish
  | .binary op left right operandType _ span => do
    lowerExpr left
    coerce left.type operandType left.span
    lowerExpr right
    coerce right.type operandType right.span
    match NumericOp.ofBinary? op operandType with
    | some numeric => emit (.numeric numeric operandType)
    | none =>
      throw (.malformed ("no " ++ op.name ++ " instruction for " ++ operandType.name) span)
  | .unary op operand _ _ => do
    lowerExpr operand
    applyUnary op operand.type
  | .update op slot type span => step op slot type span
  | .assign slot value type span => do
    lowerExpr value
    let _ ← store slot value.type span
    discard (load slot type span)
  | .convert operand source target _ span => do
    lowerExpr operand
    coerce source target span
  | .call callee arguments parameterTypes callSpan _ _ => do
    if (← functionResult callee callSpan).isNone then
      throw (.malformed ("`" ++ signed callee ++ "` returns nothing but its value is used") callSpan)
    lowerArguments arguments parameterTypes
    call callee

/-- Puts the arguments of a call on the stack, as values of the parameters' types. -/
def lowerArguments : List Typed.Expr → List NumType → Lowering Unit
  | argument :: arguments, parameter :: parameters => do
    lowerExpr argument
    coerce argument.type parameter argument.span
    lowerArguments arguments parameters
  | _, _ => return

end

/-- Leaves an `i32` that is zero exactly when the expression is. -/
def lowerCondition (e : Typed.Expr) : Lowering Unit := do
  lowerExpr e
  asCondition e.type

def lowerCall (callee : String) (arguments : List Typed.Expr) (parameterTypes : List NumType) :
    Lowering Unit := do
  lowerArguments arguments parameterTypes
  call callee

/-- A declaration stores its value, or zero. -/
def lowerDeclare (slot : String) (value : Option Typed.Expr) (type : NumType) (span : Span) :
    Lowering Unit := do
  match value with
  | some value =>
    lowerExpr value
    let _ ← slotFor slot type
    discard (store slot value.type span)
  | none =>
    emit (.whole type 0)
    discard (store slot type span)

def lowerReturn (value : Option Typed.Expr) (span : Span) : Lowering Unit := do
  if let some value := value then
    lowerExpr value
    match (← get).result with
    | some result => coerce value.type result span
    | none => throw (.malformed "value returned from a function with no result" span)
  emit .ret

/-- Leaves the loop unless its condition holds. -/
def lowerTest (label : Nat) (condition : Option Typed.Expr) : Lowering Unit := do
  if let some condition := condition then
    lowerCondition condition
    emit (.eqz .i32)
    emit (.brIf (.exit label))

mutual

def lowerStmt : Typed.Stmt → Lowering Unit
  | .declare slot value type span => lowerDeclare slot value type span
  | .assign slot value span => do
    lowerExpr value
    discard (store slot value.type span)
  | .branch condition yes no _ => do
    lowerCondition condition
    emit .ifThen
    lowerStmt yes
    lowerElse no
    emit .finish
  | .loop start condition body step _ => do
    lowerStmt? start
    let label ← newLabel
    emit (.block (.exit label))
    emit (.loop (.head label))
    lowerTest label condition
    inLoop label do
      emit (.block (.next label))
      lowerStmt body
    emit .finish
    lowerStmt? step
    emit (.br (.head label))
    emit .finish
    emit .finish
  | .breakLoop span => do emit (.br (.exit (← innermost "break" span)))
  | .continueLoop span => do emit (.br (.next (← innermost "continue" span)))
  | .returnValue value span => lowerReturn value span
  | .print value _ => do
    lowerExpr value
    call (Host.print value.type).name
  | .block body _ => lowerStmts body
  | .expression value => do
    lowerExpr value
    emit .drop
  | .call callee arguments parameterTypes span => do
    let result ← functionResult callee span
    lowerCall callee arguments parameterTypes
    if result.isSome then emit .drop

def lowerStmt? : Option Typed.Stmt → Lowering Unit
  | none => return
  | some stmt => lowerStmt stmt

/-- The second branch; an empty block is left out. -/
def lowerElse : Option Typed.Stmt → Lowering Unit
  | none => return
  | some stmt =>
    if stmt.isEmptyBlock then return
    else do
      emit .orElse
      lowerStmt stmt

def lowerStmts : List Typed.Stmt → Lowering Unit
  | [] => return
  | stmt :: stmts => do
    lowerStmt stmt
    lowerStmts stmts

end

end Numlet.Lowering
