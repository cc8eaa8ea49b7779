import Numlet.Tree

/-!
The places of a program where a local can be declared or widened. Their number bounds the number of
locals of a function.
-/
namespace Numlet

mutual

/-- How many assignments an expression holds. -/
def Expr.sites : Expr → Nat
  | .literal _ _ | .var _ _ | .update _ _ _ _ => 0
  | .binary _ left right _ => left.sites + right.sites
  | .unary _ operand _ => operand.sites
  | .assign target value _ => target.sites + value.sites + 1
  | .convert operand _ _ _ => operand.sites
  | .call _ arguments _ => sitesOfExprs arguments

def sitesOfExprs : List Expr → Nat
  | [] => 0
  | e :: es => e.sites + sitesOfExprs es

end

def sitesOfExpr? (e : Option Expr) : Nat := (e.map Expr.sites).getD 0

mutual

/-- How many declarations and assignments a statement holds. -/
def Stmt.sites : Stmt → Nat
  | .function _ _ _ _ _ _ | .breakLoop _ | .continueLoop _ => 0
  | .declare _ _ value _ => sitesOfExpr? value + 1
  | .assign target value _ => target.sites + value.sites + 1
  | .branch condition yes no _ => condition.sites + yes.sites + sitesOfStmt? no
  | .whileLoop condition body _ => condition.sites + body.sites
  | .forLoop start condition step body _ =>
    sitesOfStmt? start + sitesOfExpr? condition + sitesOfExpr? step + body.sites
  | .returnValue value _ => sitesOfExpr? value
  | .print value _ => value.sites
  | .block body _ => sitesOfStmts body
  | .expression value _ => value.sites
  | .call _ arguments _ => sitesOfExprs arguments

def sitesOfStmt? : Option Stmt → Nat
  | none => 0
  | some s => s.sites

def sitesOfStmts : List Stmt → Nat
  | [] => 0
  | s :: ss => s.sites + sitesOfStmts ss

end

end Numlet
