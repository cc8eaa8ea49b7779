import Numlet.Proofs.Tree.Relocated
import Numlet.Typed

/-!
Checked trees that stand elsewhere.
-/
namespace Numlet.Typed

mutual

def Expr.relocated (φ : Span → Span) : Expr → Expr
  | .literal value type span => .literal value type (φ span)
  | .var slot type span => .var slot type (φ span)
  | .binary op left right operandType type span =>
    .binary op (left.relocated φ) (right.relocated φ) operandType type (φ span)
  | .unary op operand type span => .unary op (operand.relocated φ) type (φ span)
  | .update op slot type span => .update op slot type (φ span)
  | .assign slot value type span => .assign slot (value.relocated φ) type (φ span)
  | .convert operand source target type span =>
    .convert (operand.relocated φ) source target type (φ span)
  | .call callee arguments parameterTypes callSpan type span =>
    .call callee (relocatedExprs φ arguments) parameterTypes (φ callSpan) type (φ span)

def relocatedExprs (φ : Span → Span) : List Expr → List Expr
  | [] => []
  | e :: es => e.relocated φ :: relocatedExprs φ es

end

mutual

def Stmt.relocated (φ : Span → Span) : Stmt → Stmt
  | .declare slot value type span => .declare slot (value.map (·.relocated φ)) type (φ span)
  | .assign slot value span => .assign slot (value.relocated φ) (φ span)
  | .branch condition yes no span =>
    .branch (condition.relocated φ) (yes.relocated φ) (relocatedStmt? φ no) (φ span)
  | .loop start condition body step span =>
    .loop (relocatedStmt? φ start) (condition.map (·.relocated φ)) (body.relocated φ)
      (relocatedStmt? φ step) (φ span)
  | .breakLoop span => .breakLoop (φ span)
  | .continueLoop span => .continueLoop (φ span)
  | .returnValue value span => .returnValue (value.map (·.relocated φ)) (φ span)
  | .print value span => .print (value.relocated φ) (φ span)
  | .block body span => .block (relocatedStmts φ body) (φ span)
  | .expression value => .expression (value.relocated φ)
  | .call callee arguments parameterTypes span =>
    .call callee (relocatedExprs φ arguments) parameterTypes (φ span)

def relocatedStmt? (φ : Span → Span) : Option Stmt → Option Stmt
  | none => none
  | some s => some (s.relocated φ)

def relocatedStmts (φ : Span → Span) : List Stmt → List Stmt
  | [] => []
  | s :: ss => s.relocated φ :: relocatedStmts φ ss

end

def Function.relocated (φ : Span → Span) (f : Function) : Function :=
  ⟨f.name, f.parameters, f.result, relocatedStmts φ f.body, φ f.bodySpan, f.storage, φ f.span⟩

def Program.relocated (φ : Span → Span) (p : Program) : Program :=
  ⟨p.functions.map (·.relocated φ), p.entry.relocated φ⟩

section Shape

variable (φ : Span → Span)

@[simp] theorem Expr.span_relocated (e : Expr) : (e.relocated φ).span = φ e.span := by
  cases e <;> rfl

@[simp] theorem Expr.type_relocated (e : Expr) : (e.relocated φ).type = e.type := by
  cases e <;> rfl

theorem Stmt.isEmptyBlock_relocated (s : Stmt) : (s.relocated φ).isEmptyBlock = s.isEmptyBlock := by
  match s with
  | .block [] _ | .block (_ :: _) _ => rfl
  | .declare .. | .assign .. | .branch .. | .loop .. | .breakLoop .. | .continueLoop .. | .returnValue ..
  | .print .. | .expression .. | .call .. => rfl

theorem Stmt.isReturn_relocated (s : Stmt) : (s.relocated φ).isReturn = s.isReturn := by
  cases s <;> rfl

theorem relocatedStmts_eq_map (ss : List Stmt) : relocatedStmts φ ss = ss.map (·.relocated φ) := by
  induction ss with
  | nil => rfl
  | cons s ss ih => rw [relocatedStmts, ih, List.map_cons]

theorem endsInReturn_relocated (ss : List Stmt) :
    (relocatedStmts φ ss).getLast?.any Stmt.isReturn = ss.getLast?.any Stmt.isReturn := by
  rw [relocatedStmts_eq_map, List.getLast?_map]
  cases ss.getLast? with
  | none => rfl
  | some s => exact s.isReturn_relocated φ

theorem Program.find?_relocated (p : Program) (name : String) :
    (p.relocated φ).find? name = (p.find? name).map (·.relocated φ) := by
  change List.find? _ (p.functions.map (·.relocated φ) ++ [p.entry].map (·.relocated φ)) = _
  rw [← List.map_append, List.find?_map]
  rfl

end Shape

section Still

mutual

/-- A tree that is left where it is. -/
theorem Expr.relocated_id (e : Expr) : e.relocated id = e := by
  match e with
  | .literal .. | .var .. | .update .. => rfl
  | .unary _ operand _ _ | .convert operand _ _ _ _ | .assign _ operand _ _ =>
    simp only [Expr.relocated, operand.relocated_id, id]
  | .binary _ left right _ _ _ =>
    simp only [Expr.relocated, left.relocated_id, right.relocated_id, id]
  | .call _ arguments _ _ _ _ => simp only [Expr.relocated, relocatedExprs_id arguments, id]

theorem relocatedExprs_id (es : List Expr) : relocatedExprs id es = es := by
  match es with
  | [] => rfl
  | e :: es => rw [relocatedExprs, e.relocated_id, relocatedExprs_id es]

end

theorem Expr.map_relocated_id (e : Option Expr) : e.map (·.relocated id) = e := by
  cases e with
  | none => rfl
  | some e => exact congrArg some e.relocated_id

mutual

theorem Stmt.relocated_id (s : Stmt) : s.relocated id = s := by
  match s with
  | .breakLoop _ | .continueLoop _ => rfl
  | .declare _ value _ _ | .returnValue value _ =>
    simp only [Stmt.relocated, Expr.map_relocated_id, id]
  | .assign _ value _ | .print value _ | .expression value =>
    simp only [Stmt.relocated, Expr.relocated_id, id]
  | .call _ arguments _ _ => simp only [Stmt.relocated, relocatedExprs_id, id]
  | .branch condition yes no _ =>
    simp only [Stmt.relocated, Expr.relocated_id, yes.relocated_id, relocatedStmt?_id no, id]
  | .loop start condition body step _ =>
    simp only [Stmt.relocated, Expr.map_relocated_id, body.relocated_id, relocatedStmt?_id start,
      relocatedStmt?_id step, id]
  | .block body _ => simp only [Stmt.relocated, relocatedStmts_id body, id]

theorem relocatedStmt?_id (s : Option Stmt) : relocatedStmt? id s = s := by
  match s with
  | none => rfl
  | some s => rw [relocatedStmt?, s.relocated_id]

theorem relocatedStmts_id (ss : List Stmt) : relocatedStmts id ss = ss := by
  match ss with
  | [] => rfl
  | s :: ss => rw [relocatedStmts, s.relocated_id, relocatedStmts_id ss]

end

theorem Function.relocated_id (f : Function) : f.relocated id = f := by
  simp only [Function.relocated, relocatedStmts_id, id]

end Still

end Numlet.Typed
