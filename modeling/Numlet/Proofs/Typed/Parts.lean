import Numlet.Code.Host
import Numlet.Typed

/-!
The expressions and statements that a checked tree is made of, in the order in which they take effect:
an expression stands after its operands, and the step of a loop after its body.
-/
namespace Numlet.Typed

mutual

def Expr.parts : Expr → List Expr
  | .literal value type span => [.literal value type span]
  | .var slot type span => [.var slot type span]
  | .binary op left right operandType type span =>
    left.parts ++ right.parts ++ [.binary op left right operandType type span]
  | .unary op operand type span => operand.parts ++ [.unary op operand type span]
  | .update op slot type span => [.update op slot type span]
  | .assign slot value type span => value.parts ++ [.assign slot value type span]
  | .convert operand source target type span =>
    operand.parts ++ [.convert operand source target type span]
  | .call callee arguments parameterTypes callSpan type span =>
    partsOfExprs arguments ++ [.call callee arguments parameterTypes callSpan type span]

def partsOfExprs : List Expr → List Expr
  | [] => []
  | e :: es => e.parts ++ partsOfExprs es

end

def partsOfExpr? (e : Option Expr) : List Expr := (e.map Expr.parts).getD []

mutual

/-- The expressions in a statement. -/
def Stmt.exprs : Stmt → List Expr
  | .declare _ value _ _ => partsOfExpr? value
  | .assign _ value _ => value.parts
  | .branch condition yes no _ => condition.parts ++ yes.exprs ++ exprsOfStmt? no
  | .loop start condition body step _ =>
    exprsOfStmt? start ++ partsOfExpr? condition ++ body.exprs ++ exprsOfStmt? step
  | .breakLoop _ | .continueLoop _ => []
  | .returnValue value _ => partsOfExpr? value
  | .print value _ => value.parts
  | .block body _ => exprsOfStmts body
  | .expression value => value.parts
  | .call _ arguments _ _ => partsOfExprs arguments

def exprsOfStmt? : Option Stmt → List Expr
  | none => []
  | some s => s.exprs

def exprsOfStmts : List Stmt → List Expr
  | [] => []
  | s :: ss => s.exprs ++ exprsOfStmts ss

end

mutual

/-- The statements in a statement, itself included. -/
def Stmt.parts : Stmt → List Stmt
  | .declare slot value type span => [.declare slot value type span]
  | .assign slot value span => [.assign slot value span]
  | .branch condition yes no span =>
    yes.parts ++ partsOfStmt? no ++ [.branch condition yes no span]
  | .loop start condition body step span =>
    partsOfStmt? start ++ body.parts ++ partsOfStmt? step ++ [.loop start condition body step span]
  | .breakLoop span => [.breakLoop span]
  | .continueLoop span => [.continueLoop span]
  | .returnValue value span => [.returnValue value span]
  | .print value span => [.print value span]
  | .block body span => partsOfStmts body ++ [.block body span]
  | .expression value => [.expression value]
  | .call callee arguments parameterTypes span => [.call callee arguments parameterTypes span]

def partsOfStmt? : Option Stmt → List Stmt
  | none => []
  | some s => s.parts

def partsOfStmts : List Stmt → List Stmt
  | [] => []
  | s :: ss => s.parts ++ partsOfStmts ss

end

mutual

/-- The expressions of a statement within another one are expressions of the other one. -/
theorem Stmt.exprs_subset (s : Stmt) : ∀ t ∈ s.parts, t.exprs ⊆ s.exprs := by
  match s with
  | .declare .. | .assign .. | .breakLoop _ | .continueLoop _ | .returnValue .. | .print ..
  | .expression _ | .call .. => simp [Stmt.parts]
  | .branch condition yes no span =>
    simp only [Stmt.parts, List.forall_mem_append, List.forall_mem_singleton, Stmt.exprs]
    refine ⟨⟨fun t ht x hx => ?_, fun t ht x hx => ?_⟩, fun _ => id⟩
    · exact List.mem_append_left _ (List.mem_append_right _ (yes.exprs_subset t ht hx))
    · exact List.mem_append_right _ (exprsOfStmt?_subset no t ht hx)
  | .loop start condition body step span =>
    simp only [Stmt.parts, List.forall_mem_append, List.forall_mem_singleton, Stmt.exprs]
    refine ⟨⟨⟨fun t ht x hx => ?_, fun t ht x hx => ?_⟩, fun t ht x hx => ?_⟩, fun _ => id⟩
    · have hmem := exprsOfStmt?_subset start t ht hx
      exact List.mem_append_left _ (List.mem_append_left _ (List.mem_append_left _ hmem))
    · exact List.mem_append_left _ (List.mem_append_right _ (body.exprs_subset t ht hx))
    · exact List.mem_append_right _ (exprsOfStmt?_subset step t ht hx)
  | .block body span =>
    simp only [Stmt.parts, List.forall_mem_append, List.forall_mem_singleton, Stmt.exprs]
    exact ⟨exprsOfStmts_subset body, fun _ => id⟩

theorem exprsOfStmt?_subset (s : Option Stmt) : ∀ t ∈ partsOfStmt? s, t.exprs ⊆ exprsOfStmt? s := by
  match s with
  | none => simp [partsOfStmt?]
  | some s => exact s.exprs_subset

theorem exprsOfStmts_subset (ss : List Stmt) : ∀ t ∈ partsOfStmts ss, t.exprs ⊆ exprsOfStmts ss := by
  match ss with
  | [] => simp [partsOfStmts]
  | s :: ss =>
    simp only [partsOfStmts, exprsOfStmts, List.forall_mem_append]
    refine ⟨fun t ht x hx => ?_, fun t ht x hx => ?_⟩
    · exact List.mem_append_left _ (s.exprs_subset t ht hx)
    · exact List.mem_append_right _ (exprsOfStmts_subset ss t ht hx)

end

/-- The function that a call calls for its value. -/
def Expr.callee? : Expr → Option String
  | .call callee _ _ _ _ _ => some callee
  | _ => none

def Expr.literal? : Expr → Option Literal
  | .literal value _ _ => some value
  | _ => none

/-- All functions, the one with the top-level statements last. -/
def Program.bodies (p : Program) : List Function := p.functions ++ [p.entry]

def Program.exprs (p : Program) : List Expr := p.bodies.flatMap fun f => exprsOfStmts f.body

def Program.stmts (p : Program) : List Stmt := p.bodies.flatMap fun f => partsOfStmts f.body

/-- The parameter types and the result that a name has in the end. -/
def Program.signature? (p : Program) (name : String) : Option (List NumType × Option NumType) :=
  match Host.find? name with
  | some h => some (h.parameters, h.result)
  | none =>
    (p.functions.find? (·.name == name)).map fun f => (f.parameters.map (·.type), f.result)

end Numlet.Typed
