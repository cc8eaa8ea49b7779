import Numlet.Tree.ReadStmt

/-!
Tokens and trees apart from their places in a source. A lexeme is what is left of a token without its
span, and a tree loses its places by having the same span everywhere.
-/
namespace Numlet

structure Lexeme where
  kind : Kind
  value : String
deriving DecidableEq, Repr

def Token.lexeme (t : Token) : Lexeme := ⟨t.kind, t.value⟩

/-- The span of a part without a place. -/
def Span.nowhere : Span := .empty .unknown

mutual

/-- An expression without its places. -/
def Expr.unplaced : Expr → Expr
  | .literal value _ => .literal value .nowhere
  | .var name _ => .var name .nowhere
  | .binary op left right _ => .binary op left.unplaced right.unplaced .nowhere
  | .unary op operand _ => .unary op operand.unplaced .nowhere
  | .update op target _ _ => .update op target .nowhere .nowhere
  | .assign target value _ => .assign target.unplaced value.unplaced .nowhere
  | .convert operand source target _ => .convert operand.unplaced source target .nowhere
  | .call callee arguments _ => .call callee (unplacedExprs arguments) .nowhere

def unplacedExprs : List Expr → List Expr
  | [] => []
  | e :: es => e.unplaced :: unplacedExprs es

end

def Parameter.unplaced (p : Parameter) : Parameter := ⟨p.name, p.declared, .nowhere⟩

mutual

/-- A statement without its places. -/
def Stmt.unplaced : Stmt → Stmt
  | .function name parameters result body _ _ =>
    .function name (parameters.map (·.unplaced)) result (unplacedStmts body) .nowhere .nowhere
  | .declare name declared value _ => .declare name declared (value.map (·.unplaced)) .nowhere
  | .assign target value _ => .assign target.unplaced value.unplaced .nowhere
  | .branch condition yes no _ =>
    .branch condition.unplaced yes.unplaced (unplacedStmt? no) .nowhere
  | .whileLoop condition body _ => .whileLoop condition.unplaced body.unplaced .nowhere
  | .forLoop start condition step body _ =>
    .forLoop (unplacedStmt? start) (condition.map (·.unplaced)) (step.map (·.unplaced)) body.unplaced
      .nowhere
  | .breakLoop _ => .breakLoop .nowhere
  | .continueLoop _ => .continueLoop .nowhere
  | .returnValue value _ => .returnValue (value.map (·.unplaced)) .nowhere
  | .print value _ => .print value.unplaced .nowhere
  | .block body _ => .block (unplacedStmts body) .nowhere
  | .expression value _ => .expression value.unplaced .nowhere
  | .call callee arguments _ => .call callee (unplacedExprs arguments) .nowhere

def unplacedStmt? : Option Stmt → Option Stmt
  | none => none
  | some s => some s.unplaced

def unplacedStmts : List Stmt → List Stmt
  | [] => []
  | s :: ss => s.unplaced :: unplacedStmts ss

end

def Function.unplaced (f : Function) : Function :=
  ⟨f.name, f.parameters.map (·.unplaced), f.result, unplacedStmts f.body, .nowhere, .nowhere⟩

def Program.unplaced (p : Program) : Program :=
  ⟨p.functions.map (·.unplaced), unplacedStmts p.body, .nowhere⟩

theorem Stmt.unplaced_ofExpr (e : Expr) : (Stmt.ofExpr e).unplaced = Stmt.ofExpr e.unplaced := by
  cases e with
  | assign | call => simp [ofExpr, Stmt.unplaced, Expr.unplaced]
  | literal | var | binary | unary | update | convert =>
    simp [ofExpr, Stmt.unplaced, Expr.unplaced, Expr.span]

theorem unplacedExprs_eq_map (es : List Expr) : unplacedExprs es = es.map (·.unplaced) := by
  induction es with
  | nil => rfl
  | cons e es ih => rw [unplacedExprs, ih, List.map_cons]

theorem unplacedStmt?_eq_map (s : Option Stmt) : unplacedStmt? s = s.map (·.unplaced) := by
  cases s <;> rfl

theorem unplacedStmts_eq_map (ss : List Stmt) : unplacedStmts ss = ss.map (·.unplaced) := by
  induction ss with
  | nil => rfl
  | cons s ss ih => rw [unplacedStmts, ih, List.map_cons]

theorem Stmt.function?_unplaced (s : Stmt) : s.unplaced.function? = s.function?.map (·.unplaced) := by
  cases s with
  | function => simp [Stmt.unplaced, function?, Function.unplaced]
  | declare | assign | branch | whileLoop | forLoop | breakLoop | continueLoop | returnValue | print
  | block | expression | call => simp [Stmt.unplaced, function?]

/-- Functions are told apart by their trees alone. -/
theorem Program.unplaced_ofStmts (ss : List Stmt) (span : Span) :
    (ofStmts ss span).unplaced = ofStmts (unplacedStmts ss) .nowhere := by
  have hfunctions : (ss.filterMap Stmt.function?).map (·.unplaced) =
      (ss.map (·.unplaced)).filterMap Stmt.function? := by
    rw [List.map_filterMap, List.filterMap_map]
    congr 1
    funext s
    exact s.function?_unplaced.symm
  have hbody : (ss.filter (·.function?.isNone)).map (·.unplaced) =
      (ss.map (·.unplaced)).filter (·.function?.isNone) := by
    rw [List.filter_map]
    congr 1
    refine List.filter_congr fun s _ => ?_
    simp [Stmt.function?_unplaced]
  simp only [unplaced, ofStmts, unplacedStmts_eq_map, hfunctions, hbody]

end Numlet
