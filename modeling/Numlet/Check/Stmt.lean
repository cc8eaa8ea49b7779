import Numlet.Check.Expr

/-!
Checking statements, each in the scope that it stands in.
-/
namespace Numlet.Checking

/-- Checks an optional part. -/
def checkOption {α β : Type} (check : α → Checking β) : Option α → Checking (Option β)
  | none => return none
  | some a => return some (← check a)

/-- A declaration. The value is checked before the name is bound. -/
def checkDeclare (name : String) (declared : Option NumType) (value : Option Expr)
    (span : Span) : Checking Typed.Stmt := do
  let value ← checkOption (checkExpr · declared) value
  if let (some type, some value) := (declared, value) then
    if (NumType.assign? type value.type true).isNone then
      throw (.mismatch type.name value.type.name value.span)
  let type := declared.getD ((value.map (·.type)).getD .i32)
  let slot ← declareLocal name type declared.isSome
  return .declare slot value type span

/-- A return. One without a value needs a function without a result; a value must fit a fixed result
and widens an inferred one. -/
def checkReturn (value : Option Expr) (span : Span) : Checking Typed.Stmt := do
  match (← get).scope.function with
  | none => throw ⟨.contextViolation "return" "a function body", span.start⟩
  | some function =>
    let signature ← signatureOf function span
    match value with
    | none =>
      if let some result := signature.result then throw (.mismatch result.name "void" span)
      modify fun s => { s with bareReturn := true }
      return .returnValue none span
    | some value =>
      let value ← checkExpr value signature.result
      if (← get).bareReturn then throw (.mismatch "void" value.type.name value.span)
      modify fun s => { s with valuedReturn := true }
      if signature.resultFixed then
        let result := signature.result.getD .i32
        if (NumType.assign? result value.type true).isNone then
          throw (.mismatch result.name value.type.name value.span)
      else
        -- The function may have been pinned meanwhile; only its result is set here.
        if let some current := (← get).signatures.find? function then
          let result := NumType.joinKnown signature.result (some value.type)
          setSignature function { current with result := some result }
      return .returnValue (some value) span

/-- An expression as a statement. -/
def checkExprStmt : Expr → Checking Typed.Stmt
  | .assign target value span => do
    let (slot, value, _) ← assignTo target (checkExpr value)
    return .assign slot value span
  | .call callee arguments span => do
    let (arguments, parameterTypes) ← checkCall callee arguments span
    return .call callee arguments parameterTypes span
  | e => return .expression (← checkExpr e none)

/-- A jump out of a loop's body or to its end. -/
def checkJump (construct : String) (span : Span) : Checking Unit := do
  if !(← get).scope.inLoop then throw ⟨.contextViolation construct "a loop", span.start⟩

mutual

def checkStmt : Stmt → Checking Typed.Stmt
  | .function name _ _ _ _ span =>
    throw (.malformed ("function `" ++ name ++ "` must be declared at the top level") span)
  | .declare name declared value span => checkDeclare name declared value span
  | .assign target value span => do
    let (slot, value, _) ← assignTo target (checkExpr value)
    return .assign slot value span
  | .branch condition yes no span => do
    let condition ← checkExpr condition none
    let yes ← within id (checkStmt yes)
    let no ← within id (checkStmt? no)
    return .branch condition yes no span
  | .whileLoop condition body span => do
    let condition ← checkExpr condition none
    let body ← within Scope.loopBody (checkStmt body)
    return .loop none (some condition) body none span
  | .forLoop start condition step body span => within id do
    let start ← checkStmt? start
    let condition ← checkOption (checkExpr · none) condition
    let body ← within Scope.loopBody (checkStmt body)
    let step ← checkOption checkExprStmt step
    return .loop start condition body step span
  | .breakLoop span => do
    checkJump "break" span
    return .breakLoop span
  | .continueLoop span => do
    checkJump "continue" span
    return .continueLoop span
  | .returnValue value span => checkReturn value span
  | .print value span => return .print (← checkExpr value none) span
  | .block body span => return .block (← within id (checkStmts body)) span
  | .expression value _ => return .expression (← checkExpr value none)
  | .call callee arguments span => do
    let (arguments, parameterTypes) ← checkCall callee arguments span
    return .call callee arguments parameterTypes span

def checkStmt? : Option Stmt → Checking (Option Typed.Stmt)
  | none => return none
  | some stmt => return some (← checkStmt stmt)

/-- Checks statements one after the other in the same scope. -/
def checkStmts : List Stmt → Checking (List Typed.Stmt)
  | [] => return []
  | stmt :: stmts => return (← checkStmt stmt) :: (← checkStmts stmts)

end

end Numlet.Checking
