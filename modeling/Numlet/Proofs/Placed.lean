import Numlet.Proofs.Blame
import Numlet.Typed

/-!
Trees that stand in a text. Of a text it is known where its tokens start and where its calls end; every node
of the tree starts with a token, and a call ends where such a call does. A diagnostic that is found in the
tree then has its place in the text.
-/
namespace Numlet

/-- Places of a text: where a token starts, and where a call of a function with some number of arguments
ends. -/
structure Marks where
  start : Position → Prop
  close : String → Nat → Position → Prop

/-- A call that lacks arguments is blamed at its end and all else at the start of a token. -/
def Marks.Admits (m : Marks) (d : Diagnostic) : Prop :=
  match d.fault with
  | .unrecognisedToken _ => False
  | .missingArguments callee expected received =>
    received < expected ∧ m.close callee received d.position
  | _ => m.start d.position

/-- Whatever the state, a computation gives a value as `P` says or fails at a place of the text. -/
abbrev Marks.Covers {σ α : Type} (m : Marks) (P : α → Prop) (x : EStateM Diagnostic σ α) : Prop :=
  Blames (fun _ => True) m.Admits P x

mutual

def Expr.Placed (m : Marks) : Expr → Prop
  | .literal _ span | .var _ span => m.start span.start
  | .binary _ left right span => m.start span.start ∧ left.Placed m ∧ right.Placed m
  | .unary _ operand span | .convert operand _ _ span => m.start span.start ∧ operand.Placed m
  | .update _ _ targetSpan span => m.start span.start ∧ m.start targetSpan.start
  | .assign target value span => m.start span.start ∧ target.Placed m ∧ value.Placed m
  | .call callee arguments span =>
    m.start span.start ∧ m.close callee arguments.length span.stop ∧ placedExprs m arguments

def placedExprs (m : Marks) : List Expr → Prop
  | [] => True
  | e :: es => e.Placed m ∧ placedExprs m es

end

mutual

def Stmt.Placed (m : Marks) : Stmt → Prop
  | .function _ parameters _ body _ span =>
    m.start span.start ∧ (∀ p ∈ parameters, m.start p.span.start) ∧ placedStmts m body
  | .declare _ _ value span | .returnValue value span =>
    m.start span.start ∧ ∀ e ∈ value, e.Placed m
  | .assign target value span => m.start span.start ∧ target.Placed m ∧ value.Placed m
  | .branch condition yes no span =>
    m.start span.start ∧ condition.Placed m ∧ yes.Placed m ∧ placedStmt? m no
  | .whileLoop condition body span => m.start span.start ∧ condition.Placed m ∧ body.Placed m
  | .forLoop start condition step body span =>
    m.start span.start ∧ placedStmt? m start ∧ (∀ e ∈ condition, e.Placed m) ∧
      (∀ e ∈ step, e.Placed m) ∧ body.Placed m
  | .breakLoop span | .continueLoop span => m.start span.start
  | .print value span | .expression value span => m.start span.start ∧ value.Placed m
  | .block body span => m.start span.start ∧ placedStmts m body
  | .call callee arguments span =>
    m.start span.start ∧ m.close callee arguments.length span.stop ∧ placedExprs m arguments

def placedStmt? (m : Marks) : Option Stmt → Prop
  | none => True
  | some s => s.Placed m

def placedStmts (m : Marks) : List Stmt → Prop
  | [] => True
  | s :: ss => s.Placed m ∧ placedStmts m ss

end

structure Function.Placed (m : Marks) (f : Function) : Prop where
  span : m.start f.span.start
  parameters : ∀ p ∈ f.parameters, m.start p.span.start
  body : placedStmts m f.body

structure Program.Placed (m : Marks) (p : Program) : Prop where
  functions : ∀ f ∈ p.functions, f.Placed m
  body : placedStmts m p.body

section Trees

variable {m : Marks}

theorem Expr.Placed.span {e : Expr} (h : e.Placed m) : m.start e.span.start := by
  cases e with
  | literal | var => exact h
  | binary | unary | update | assign | convert | call => exact h.1

theorem placedExprs_iff {es : List Expr} : placedExprs m es ↔ ∀ e ∈ es, e.Placed m := by
  induction es with
  | nil => simp [placedExprs]
  | cons e es ih => simp [placedExprs, ih]

theorem placedStmt?_iff {s : Option Stmt} : placedStmt? m s ↔ ∀ t ∈ s, t.Placed m := by
  cases s <;> simp [placedStmt?]

theorem placedStmts_iff {ss : List Stmt} : placedStmts m ss ↔ ∀ s ∈ ss, s.Placed m := by
  induction ss with
  | nil => simp [placedStmts]
  | cons s ss ih => simp [placedStmts, ih]

end Trees

namespace Typed

mutual

/-- Every node of a checked tree starts where `start` says. -/
def Expr.Placed (start : Position → Prop) : Expr → Prop
  | .literal _ _ span | .var _ _ span | .update _ _ _ span => start span.start
  | .binary _ left right _ _ span => start span.start ∧ left.Placed start ∧ right.Placed start
  | .unary _ operand _ span | .assign _ operand _ span | .convert operand _ _ _ span =>
    start span.start ∧ operand.Placed start
  | .call _ arguments _ callSpan _ span =>
    start span.start ∧ start callSpan.start ∧ placedExprs start arguments

def placedExprs (start : Position → Prop) : List Expr → Prop
  | [] => True
  | e :: es => e.Placed start ∧ placedExprs start es

end

mutual

def Stmt.Placed (start : Position → Prop) : Stmt → Prop
  | .declare _ value _ span | .returnValue value span =>
    start span.start ∧ ∀ e ∈ value, e.Placed start
  | .assign _ value span | .print value span => start span.start ∧ value.Placed start
  | .branch condition yes no span =>
    start span.start ∧ condition.Placed start ∧ yes.Placed start ∧ placedStmt? start no
  | .loop first condition body step span =>
    start span.start ∧ placedStmt? start first ∧ (∀ e ∈ condition, e.Placed start) ∧
      body.Placed start ∧ placedStmt? start step
  | .breakLoop span | .continueLoop span => start span.start
  | .block body span => start span.start ∧ placedStmts start body
  | .expression value => value.Placed start
  | .call _ arguments _ span => start span.start ∧ placedExprs start arguments

def placedStmt? (start : Position → Prop) : Option Stmt → Prop
  | none => True
  | some s => s.Placed start

def placedStmts (start : Position → Prop) : List Stmt → Prop
  | [] => True
  | s :: ss => s.Placed start ∧ placedStmts start ss

end

structure Program.Placed (start : Position → Prop) (p : Program) : Prop where
  functions : ∀ f ∈ p.functions, placedStmts start f.body
  entry : placedStmts start p.entry.body

theorem placedStmt?_iff {start : Position → Prop} {s : Option Stmt} :
    placedStmt? start s ↔ ∀ t ∈ s, t.Placed start := by
  cases s <;> simp [placedStmt?]

theorem Expr.Placed.span {start : Position → Prop} {e : Expr} (h : e.Placed start) :
    start e.span.start := by
  cases e with
  | literal | var | update => exact h
  | binary | unary | assign | convert | call => exact h.1

end Typed

end Numlet
