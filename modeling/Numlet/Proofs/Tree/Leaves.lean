import Numlet.Tree

/-!
The names, literals and called functions that a program is written with, from left to right.
-/
namespace Numlet

mutual

def Expr.names : Expr → List String
  | .literal _ _ => []
  | .var name _ => [name]
  | .binary _ left right _ => left.names ++ right.names
  | .unary _ operand _ => operand.names
  | .update _ target _ _ => [target]
  | .assign target value _ => target.names ++ value.names
  | .convert operand _ _ _ => operand.names
  | .call callee arguments _ => callee :: namesOfExprs arguments

def namesOfExprs : List Expr → List String
  | [] => []
  | e :: es => e.names ++ namesOfExprs es

end

def namesOfExpr? (e : Option Expr) : List String := (e.map Expr.names).getD []

mutual

/-- The names in a statement, those of a function defined in it included. -/
def Stmt.names : Stmt → List String
  | .function name parameters _ body _ _ =>
    name :: (parameters.map (·.name) ++ namesOfStmts body)
  | .declare name _ value _ => name :: namesOfExpr? value
  | .assign target value _ => target.names ++ value.names
  | .branch condition yes no _ => condition.names ++ yes.names ++ namesOfStmt? no
  | .whileLoop condition body _ => condition.names ++ body.names
  | .forLoop start condition step body _ =>
    namesOfStmt? start ++ namesOfExpr? condition ++ namesOfExpr? step ++ body.names
  | .breakLoop _ | .continueLoop _ => []
  | .returnValue value _ => namesOfExpr? value
  | .print value _ => value.names
  | .block body _ => namesOfStmts body
  | .expression value _ => value.names
  | .call callee arguments _ => callee :: namesOfExprs arguments

def namesOfStmt? : Option Stmt → List String
  | none => []
  | some s => s.names

def namesOfStmts : List Stmt → List String
  | [] => []
  | s :: ss => s.names ++ namesOfStmts ss

end

def Function.names (f : Function) : List String :=
  f.name :: (f.parameters.map (·.name) ++ namesOfStmts f.body)

def Program.names (p : Program) : List String :=
  p.functions.flatMap Function.names ++ namesOfStmts p.body

mutual

def Expr.literals : Expr → List Literal
  | .literal value _ => [value]
  | .var _ _ | .update _ _ _ _ => []
  | .binary _ left right _ => left.literals ++ right.literals
  | .unary _ operand _ => operand.literals
  | .assign target value _ => target.literals ++ value.literals
  | .convert operand _ _ _ => operand.literals
  | .call _ arguments _ => literalsOfExprs arguments

def literalsOfExprs : List Expr → List Literal
  | [] => []
  | e :: es => e.literals ++ literalsOfExprs es

end

def literalsOfExpr? (e : Option Expr) : List Literal := (e.map Expr.literals).getD []

mutual

/-- The literals in a statement, those of a function defined in it included. -/
def Stmt.literals : Stmt → List Literal
  | .function _ _ _ body _ _ => literalsOfStmts body
  | .declare _ _ value _ => literalsOfExpr? value
  | .assign target value _ => target.literals ++ value.literals
  | .branch condition yes no _ => condition.literals ++ yes.literals ++ literalsOfStmt? no
  | .whileLoop condition body _ => condition.literals ++ body.literals
  | .forLoop start condition step body _ =>
    literalsOfStmt? start ++ literalsOfExpr? condition ++ body.literals ++ literalsOfExpr? step
  | .breakLoop _ | .continueLoop _ => []
  | .returnValue value _ => literalsOfExpr? value
  | .print value _ => value.literals
  | .block body _ => literalsOfStmts body
  | .expression value _ => value.literals
  | .call _ arguments _ => literalsOfExprs arguments

def literalsOfStmt? : Option Stmt → List Literal
  | none => []
  | some s => s.literals

def literalsOfStmts : List Stmt → List Literal
  | [] => []
  | s :: ss => s.literals ++ literalsOfStmts ss

end

mutual

/-- The functions that are called for their values. -/
def Expr.callees : Expr → List String
  | .literal _ _ | .var _ _ | .update _ _ _ _ => []
  | .binary _ left right _ => left.callees ++ right.callees
  | .unary _ operand _ => operand.callees
  | .assign _ value _ => value.callees
  | .convert operand _ _ _ => operand.callees
  | .call callee arguments _ => calleesOfExprs arguments ++ [callee]

def calleesOfExprs : List Expr → List String
  | [] => []
  | e :: es => e.callees ++ calleesOfExprs es

end

def calleesOfExpr? (e : Option Expr) : List String := (e.map Expr.callees).getD []

/-- The functions that an expression on its own calls for their values. -/
def Expr.calleesInside : Expr → List String
  | .call _ arguments _ => calleesOfExprs arguments
  | e => e.callees

mutual

def Stmt.callees : Stmt → List String
  | .function _ _ _ body _ _ => calleesOfStmts body
  | .declare _ _ value _ => calleesOfExpr? value
  | .assign _ value _ => value.callees
  | .branch condition yes no _ => condition.callees ++ yes.callees ++ calleesOfStmt? no
  | .whileLoop condition body _ => condition.callees ++ body.callees
  | .forLoop start condition step body _ =>
    calleesOfStmt? start ++ calleesOfExpr? condition ++ body.callees ++
      (step.map Expr.calleesInside).getD []
  | .breakLoop _ | .continueLoop _ => []
  | .returnValue value _ => calleesOfExpr? value
  | .print value _ => value.callees
  | .block body _ => calleesOfStmts body
  | .expression value _ => value.callees
  | .call _ arguments _ => calleesOfExprs arguments

def calleesOfStmt? : Option Stmt → List String
  | none => []
  | some s => s.callees

def calleesOfStmts : List Stmt → List String
  | [] => []
  | s :: ss => s.callees ++ calleesOfStmts ss

end

def Program.literals (p : Program) : List Literal :=
  p.functions.flatMap (fun f => literalsOfStmts f.body) ++ literalsOfStmts p.body

theorem names_ofExpr (e : Expr) : (Stmt.ofExpr e).names = e.names := by
  cases e <;> rfl

theorem namesOfStep (step : Option Expr) :
    namesOfStmt? (step.map Stmt.ofExpr) = namesOfExpr? step := by
  cases step with
  | none => rfl
  | some e => exact names_ofExpr e

theorem literals_ofExpr (e : Expr) : (Stmt.ofExpr e).literals = e.literals := by
  cases e <;> rfl

theorem literalsOfStep (step : Option Expr) :
    literalsOfStmt? (step.map Stmt.ofExpr) = literalsOfExpr? step := by
  cases step with
  | none => rfl
  | some e => exact literals_ofExpr e

theorem callees_ofExpr (e : Expr) : (Stmt.ofExpr e).callees = e.calleesInside := by
  cases e <;> rfl

theorem calleesOfStep (step : Option Expr) :
    calleesOfStmt? (step.map Stmt.ofExpr) = (step.map Expr.calleesInside).getD [] := by
  cases step with
  | none => rfl
  | some e => exact callees_ofExpr e

end Numlet
