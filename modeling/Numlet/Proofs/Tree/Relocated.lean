import Numlet.Check.Sites
import Numlet.Proofs.Tree.Unplaced

/-!
Trees that stand elsewhere. To relocate a tree is to replace every span in it; nothing else about the tree
changes. Two ways to do so matter: to leave it where it is, and to take all places away.
-/
namespace Numlet

mutual

def Expr.relocated (φ : Span → Span) : Expr → Expr
  | .literal value span => .literal value (φ span)
  | .var name span => .var name (φ span)
  | .binary op left right span => .binary op (left.relocated φ) (right.relocated φ) (φ span)
  | .unary op operand span => .unary op (operand.relocated φ) (φ span)
  | .update op target targetSpan span => .update op target (φ targetSpan) (φ span)
  | .assign target value span => .assign (target.relocated φ) (value.relocated φ) (φ span)
  | .convert operand source target span => .convert (operand.relocated φ) source target (φ span)
  | .call callee arguments span => .call callee (relocatedExprs φ arguments) (φ span)

def relocatedExprs (φ : Span → Span) : List Expr → List Expr
  | [] => []
  | e :: es => e.relocated φ :: relocatedExprs φ es

end

def Parameter.relocated (φ : Span → Span) (p : Parameter) : Parameter := ⟨p.name, p.declared, φ p.span⟩

mutual

def Stmt.relocated (φ : Span → Span) : Stmt → Stmt
  | .function name parameters result body bodySpan span =>
    .function name (parameters.map (·.relocated φ)) result (relocatedStmts φ body) (φ bodySpan) (φ span)
  | .declare name declared value span =>
    .declare name declared (value.map (·.relocated φ)) (φ span)
  | .assign target value span => .assign (target.relocated φ) (value.relocated φ) (φ span)
  | .branch condition yes no span =>
    .branch (condition.relocated φ) (yes.relocated φ) (relocatedStmt? φ no) (φ span)
  | .whileLoop condition body span => .whileLoop (condition.relocated φ) (body.relocated φ) (φ span)
  | .forLoop start condition step body span =>
    .forLoop (relocatedStmt? φ start) (condition.map (·.relocated φ)) (step.map (·.relocated φ))
      (body.relocated φ) (φ span)
  | .breakLoop span => .breakLoop (φ span)
  | .continueLoop span => .continueLoop (φ span)
  | .returnValue value span => .returnValue (value.map (·.relocated φ)) (φ span)
  | .print value span => .print (value.relocated φ) (φ span)
  | .block body span => .block (relocatedStmts φ body) (φ span)
  | .expression value span => .expression (value.relocated φ) (φ span)
  | .call callee arguments span => .call callee (relocatedExprs φ arguments) (φ span)

def relocatedStmt? (φ : Span → Span) : Option Stmt → Option Stmt
  | none => none
  | some s => some (s.relocated φ)

def relocatedStmts (φ : Span → Span) : List Stmt → List Stmt
  | [] => []
  | s :: ss => s.relocated φ :: relocatedStmts φ ss

end

def Function.relocated (φ : Span → Span) (f : Function) : Function :=
  ⟨f.name, f.parameters.map (·.relocated φ), f.result, relocatedStmts φ f.body, φ f.bodySpan, φ f.span⟩

def Program.relocated (φ : Span → Span) (p : Program) : Program :=
  ⟨p.functions.map (·.relocated φ), relocatedStmts φ p.body, φ p.bodySpan⟩

section Shape

variable (φ : Span → Span)

@[simp] theorem Expr.span_relocated (e : Expr) : (e.relocated φ).span = φ e.span := by
  cases e <;> rfl

@[simp] theorem Expr.isConstant_relocated (e : Expr) : (e.relocated φ).isConstant = e.isConstant := by
  match e with
  | .literal .. | .var .. | .update .. | .assign .. | .convert .. | .call .. => rfl
  | .unary _ operand _ => exact operand.isConstant_relocated
  | .binary _ left right _ =>
    simp only [Expr.relocated, Expr.isConstant, left.isConstant_relocated, right.isConstant_relocated]

theorem relocatedExprs_eq_map (es : List Expr) : relocatedExprs φ es = es.map (·.relocated φ) := by
  induction es with
  | nil => rfl
  | cons e es ih => rw [relocatedExprs, ih, List.map_cons]

@[simp] theorem Parameter.type_relocated (p : Parameter) : (p.relocated φ).type = p.type := rfl

mutual

@[simp] theorem Expr.sites_relocated (e : Expr) : (e.relocated φ).sites = e.sites := by
  match e with
  | .literal .. | .var .. | .update .. => rfl
  | .unary _ operand _ | .convert operand _ _ _ => exact operand.sites_relocated
  | .binary _ left right _ | .assign left right _ =>
    simp only [Expr.relocated, Expr.sites, left.sites_relocated, right.sites_relocated]
  | .call _ arguments _ => exact sitesOfExprs_relocated arguments

@[simp] theorem sitesOfExprs_relocated (es : List Expr) :
    sitesOfExprs (relocatedExprs φ es) = sitesOfExprs es := by
  match es with
  | [] => rfl
  | e :: es => simp only [relocatedExprs, sitesOfExprs, e.sites_relocated, sitesOfExprs_relocated es]

end

@[simp] theorem sitesOfExpr?_relocated (e : Option Expr) :
    sitesOfExpr? (e.map (·.relocated φ)) = sitesOfExpr? e := by
  cases e with
  | none => rfl
  | some e => exact e.sites_relocated φ

mutual

@[simp] theorem Stmt.sites_relocated (s : Stmt) : (s.relocated φ).sites = s.sites := by
  match s with
  | .function .. | .breakLoop _ | .continueLoop _ => rfl
  | .declare _ _ value _ | .returnValue value _ => simp [Stmt.relocated, Stmt.sites]
  | .assign target value _ => simp [Stmt.relocated, Stmt.sites]
  | .print value _ | .expression value _ => exact value.sites_relocated φ
  | .call _ arguments _ => exact sitesOfExprs_relocated φ arguments
  | .branch condition yes no _ =>
    simp [Stmt.relocated, Stmt.sites, yes.sites_relocated, sitesOfStmt?_relocated no]
  | .whileLoop condition body _ => simp [Stmt.relocated, Stmt.sites, body.sites_relocated]
  | .forLoop start condition step body _ =>
    simp [Stmt.relocated, Stmt.sites, body.sites_relocated, sitesOfStmt?_relocated start]
  | .block body _ => exact sitesOfStmts_relocated body

@[simp] theorem sitesOfStmt?_relocated (s : Option Stmt) :
    sitesOfStmt? (relocatedStmt? φ s) = sitesOfStmt? s := by
  match s with
  | none => rfl
  | some s => exact s.sites_relocated

@[simp] theorem sitesOfStmts_relocated (ss : List Stmt) :
    sitesOfStmts (relocatedStmts φ ss) = sitesOfStmts ss := by
  match ss with
  | [] => rfl
  | s :: ss => simp only [relocatedStmts, sitesOfStmts, s.sites_relocated, sitesOfStmts_relocated ss]

end

end Shape

section Still

mutual

/-- A tree that is left where it is. -/
theorem Expr.relocated_id (e : Expr) : e.relocated id = e := by
  match e with
  | .literal .. | .var .. | .update .. => rfl
  | .unary _ operand _ | .convert operand _ _ _ => simp [Expr.relocated, operand.relocated_id]
  | .binary _ left right _ | .assign left right _ =>
    simp [Expr.relocated, left.relocated_id, right.relocated_id]
  | .call _ arguments _ => simp [Expr.relocated, relocatedExprs_id arguments]

theorem relocatedExprs_id (es : List Expr) : relocatedExprs id es = es := by
  match es with
  | [] => rfl
  | e :: es => rw [relocatedExprs, e.relocated_id, relocatedExprs_id es]

end

theorem Expr.map_relocated_id (e : Option Expr) : e.map (·.relocated id) = e := by
  cases e with
  | none => rfl
  | some e => exact congrArg some e.relocated_id

theorem Parameter.map_relocated_id (ps : List Parameter) : ps.map (·.relocated id) = ps := by
  induction ps with
  | nil => rfl
  | cons p ps ih => rw [List.map_cons, ih]; rfl

mutual

theorem Stmt.relocated_id (s : Stmt) : s.relocated id = s := by
  match s with
  | .breakLoop _ | .continueLoop _ => rfl
  | .function _ parameters _ body _ _ =>
    simp only [Stmt.relocated, Parameter.map_relocated_id, relocatedStmts_id body, id]
  | .declare _ _ value _ | .returnValue value _ =>
    simp only [Stmt.relocated, Expr.map_relocated_id, id]
  | .assign target value _ => simp only [Stmt.relocated, Expr.relocated_id, id]
  | .print value _ | .expression value _ => simp only [Stmt.relocated, Expr.relocated_id, id]
  | .call _ arguments _ => simp only [Stmt.relocated, relocatedExprs_id, id]
  | .branch condition yes no _ =>
    simp only [Stmt.relocated, Expr.relocated_id, yes.relocated_id, relocatedStmt?_id no, id]
  | .whileLoop condition body _ =>
    simp only [Stmt.relocated, Expr.relocated_id, body.relocated_id, id]
  | .forLoop start condition step body _ =>
    simp only [Stmt.relocated, Expr.map_relocated_id, body.relocated_id, relocatedStmt?_id start, id]
  | .block body _ => simp only [Stmt.relocated, relocatedStmts_id body, id]

theorem relocatedStmt?_id (s : Option Stmt) : relocatedStmt? id s = s := by
  match s with
  | none => rfl
  | some s => rw [relocatedStmt?, s.relocated_id]

theorem relocatedStmts_id (ss : List Stmt) : relocatedStmts id ss = ss := by
  match ss with
  | [] => rfl
  | s :: ss => rw [relocatedStmts, s.relocated_id, relocatedStmts_id ss]

end

theorem Function.relocated_id (f : Function) : f.relocated id = f := by
  simp only [Function.relocated, Parameter.map_relocated_id, relocatedStmts_id, id]

end Still

section Nowhere

mutual

/-- A tree whose places are all taken away. -/
theorem Expr.unplaced_eq (e : Expr) : e.unplaced = e.relocated fun _ => .nowhere := by
  match e with
  | .literal .. | .var .. | .update .. => rfl
  | .unary _ operand _ | .convert operand _ _ _ =>
    simp only [Expr.relocated, Expr.unplaced, operand.unplaced_eq]
  | .binary _ left right _ | .assign left right _ =>
    simp only [Expr.relocated, Expr.unplaced, left.unplaced_eq, right.unplaced_eq]
  | .call _ arguments _ => simp only [Expr.relocated, Expr.unplaced, unplacedExprs_eq arguments]

theorem unplacedExprs_eq (es : List Expr) :
    unplacedExprs es = relocatedExprs (fun _ => .nowhere) es := by
  match es with
  | [] => rfl
  | e :: es => rw [relocatedExprs, unplacedExprs, e.unplaced_eq, unplacedExprs_eq es]

end

mutual

theorem Stmt.unplaced_eq (s : Stmt) : s.unplaced = s.relocated fun _ => .nowhere := by
  match s with
  | .breakLoop _ | .continueLoop _ => rfl
  | .function _ parameters _ body _ _ =>
    simp only [Stmt.relocated, Stmt.unplaced, unplacedStmts_eq body]
    rfl
  | .declare _ _ value _ | .returnValue value _ =>
    simp only [Stmt.relocated, Stmt.unplaced, Expr.unplaced_eq]
  | .assign target value _ => simp only [Stmt.relocated, Stmt.unplaced, Expr.unplaced_eq]
  | .print value _ | .expression value _ => simp only [Stmt.relocated, Stmt.unplaced, Expr.unplaced_eq]
  | .call _ arguments _ => simp only [Stmt.relocated, Stmt.unplaced, unplacedExprs_eq]
  | .branch condition yes no _ =>
    simp only [Stmt.relocated, Stmt.unplaced, Expr.unplaced_eq, yes.unplaced_eq, unplacedStmt?_eq no]
  | .whileLoop condition body _ =>
    simp only [Stmt.relocated, Stmt.unplaced, Expr.unplaced_eq, body.unplaced_eq]
  | .forLoop start condition step body _ =>
    simp only [Stmt.relocated, Stmt.unplaced, Expr.unplaced_eq, body.unplaced_eq,
      unplacedStmt?_eq start]
  | .block body _ => simp only [Stmt.relocated, Stmt.unplaced, unplacedStmts_eq body]

theorem unplacedStmt?_eq (s : Option Stmt) :
    unplacedStmt? s = relocatedStmt? (fun _ => .nowhere) s := by
  match s with
  | none => rfl
  | some s => rw [relocatedStmt?, unplacedStmt?, s.unplaced_eq]

theorem unplacedStmts_eq (ss : List Stmt) :
    unplacedStmts ss = relocatedStmts (fun _ => .nowhere) ss := by
  match ss with
  | [] => rfl
  | s :: ss => rw [relocatedStmts, unplacedStmts, s.unplaced_eq, unplacedStmts_eq ss]

end

theorem Program.unplaced_eq (p : Program) : p.unplaced = p.relocated fun _ => .nowhere := by
  have hfunction : Function.unplaced = Function.relocated fun _ => .nowhere := by
    funext f
    rw [Function.unplaced, Function.relocated, unplacedStmts_eq]
    rfl
  rw [Program.unplaced, Program.relocated, unplacedStmts_eq, hfunction]

end Nowhere

end Numlet
