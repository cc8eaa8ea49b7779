import Numlet.Tree
import Numlet.Typed

/-!
Bodies without types. An outline holds what is left of a checked body when its types are erased, and it
is also what lexical scoping makes of a source: there every local is the number of its declaration. A
part of a source is resolved from the left, a name means its last declaration in sight, and what is
declared in a copy of the names in sight is forgotten with the copy.
-/
namespace Numlet
namespace Outline

/-- An expression whose locals are of type `ν`. -/
inductive Expr (ν : Type)
  | literal (value : Literal) (span : Span)
  | var (target : ν) (span : Span)
  | binary (op : BinaryOp) (left right : Expr ν) (span : Span)
  | unary (op : UnaryOp) (operand : Expr ν) (span : Span)
  | update (op : UpdateOp) (target : ν) (span : Span)
  | assign (target : ν) (value : Expr ν) (span : Span)
  | convert (operand : Expr ν) (target : NumType) (span : Span)
  | call (callee : String) (arguments : List (Expr ν)) (span : Span)

/-- Both kinds of loop have one form. -/
inductive Stmt (ν : Type)
  | declare (target : ν) (value : Option (Expr ν)) (span : Span)
  | assign (target : ν) (value : Expr ν) (span : Span)
  | branch (condition : Expr ν) (yes : Stmt ν) (no : Option (Stmt ν)) (span : Span)
  | loop (start : Option (Stmt ν)) (condition : Option (Expr ν)) (body : Stmt ν)
      (step : Option (Stmt ν)) (span : Span)
  | breakLoop (span : Span)
  | continueLoop (span : Span)
  | returnValue (value : Option (Expr ν)) (span : Span)
  | print (value : Expr ν) (span : Span)
  | block (body : List (Stmt ν)) (span : Span)
  | expression (value : Expr ν)
  | call (callee : String) (arguments : List (Expr ν)) (span : Span)

variable {ν μ : Type}

/-- An expression as a statement. -/
def Stmt.ofExpr : Expr ν → Stmt ν
  | .assign target value span => .assign target value span
  | .call callee arguments span => .call callee arguments span
  | e => .expression e

mutual

/-- Replaces every local. -/
def Expr.map (f : ν → μ) : Expr ν → Expr μ
  | .literal value span => .literal value span
  | .var target span => .var (f target) span
  | .binary op left right span => .binary op (left.map f) (right.map f) span
  | .unary op operand span => .unary op (operand.map f) span
  | .update op target span => .update op (f target) span
  | .assign target value span => .assign (f target) (value.map f) span
  | .convert operand target span => .convert (operand.map f) target span
  | .call callee arguments span => .call callee (mapExprs f arguments) span

def mapExprs (f : ν → μ) : List (Expr ν) → List (Expr μ)
  | [] => []
  | e :: es => e.map f :: mapExprs f es

end

mutual

def Stmt.map (f : ν → μ) : Stmt ν → Stmt μ
  | .declare target value span => .declare (f target) (value.map (·.map f)) span
  | .assign target value span => .assign (f target) (value.map f) span
  | .branch condition yes no span => .branch (condition.map f) (yes.map f) (mapStmt? f no) span
  | .loop start condition body step span =>
    .loop (mapStmt? f start) (condition.map (·.map f)) (body.map f) (mapStmt? f step) span
  | .breakLoop span => .breakLoop span
  | .continueLoop span => .continueLoop span
  | .returnValue value span => .returnValue (value.map (·.map f)) span
  | .print value span => .print (value.map f) span
  | .block body span => .block (mapStmts f body) span
  | .expression value => .expression (value.map f)
  | .call callee arguments span => .call callee (mapExprs f arguments) span

def mapStmt? (f : ν → μ) : Option (Stmt ν) → Option (Stmt μ)
  | none => none
  | some s => some (s.map f)

def mapStmts (f : ν → μ) : List (Stmt ν) → List (Stmt μ)
  | [] => []
  | s :: ss => s.map f :: mapStmts f ss

end

end Outline

namespace Typed

mutual

/-- What is left of a checked expression without its types. -/
def Expr.outline : Expr → Outline.Expr String
  | .literal value _ span => .literal value span
  | .var slot _ span => .var slot span
  | .binary op left right _ _ span => .binary op left.outline right.outline span
  | .unary op operand _ span => .unary op operand.outline span
  | .update op slot _ span => .update op slot span
  | .assign slot value _ span => .assign slot value.outline span
  | .convert operand _ target _ span => .convert operand.outline target span
  | .call callee arguments _ _ _ span => .call callee (outlineExprs arguments) span

def outlineExprs : List Expr → List (Outline.Expr String)
  | [] => []
  | e :: es => e.outline :: outlineExprs es

end

mutual

def Stmt.outline : Stmt → Outline.Stmt String
  | .declare slot value _ span => .declare slot (value.map Expr.outline) span
  | .assign slot value span => .assign slot value.outline span
  | .branch condition yes no span => .branch condition.outline yes.outline (outlineStmt? no) span
  | .loop start condition body step span =>
    .loop (outlineStmt? start) (condition.map Expr.outline) body.outline (outlineStmt? step) span
  | .breakLoop span => .breakLoop span
  | .continueLoop span => .continueLoop span
  | .returnValue value span => .returnValue (value.map Expr.outline) span
  | .print value span => .print value.outline span
  | .block body span => .block (outlineStmts body) span
  | .expression value => .expression value.outline
  | .call callee arguments _ span => .call callee (outlineExprs arguments) span

def outlineStmt? : Option Stmt → Option (Outline.Stmt String)
  | none => none
  | some s => some s.outline

def outlineStmts : List Stmt → List (Outline.Stmt String)
  | [] => []
  | s :: ss => s.outline :: outlineStmts ss

end

end Typed

/-- A declaration: a parameter, a `let`, or an assignment to a name that nothing declares. -/
structure Site where
  name : String
  /-- The type of a parameter or the one that is written with a `let`. -/
  declared : Option NumType
deriving DecidableEq, Repr

/-- The declarations of a body so far, and which of them the names in sight mean. -/
structure Naming where
  bound : Table Nat := .empty
  sites : List Site := []

namespace Naming

/-- A new declaration, whose number is that of the declarations before it. -/
def declare (n : Naming) (name : String) (declared : Option NumType) : Naming where
  bound := n.bound.insert name n.sites.length
  sites := n.sites ++ [⟨name, declared⟩]

/-- What an assignment to a name stores into. A name that is not bound is declared. -/
def assign (n : Naming) (name : String) : Nat × Naming :=
  match n.bound.find? name with
  | some k => (k, n)
  | none => (n.sites.length, n.declare name none)

/-- Back in sight of the names of `n`, after a part that has worked in a copy of them. -/
def leave (n inner : Naming) : Naming := { inner with bound := n.bound }

/-- The start of a body. -/
def ofParameters (parameters : List Typed.Parameter) : Naming :=
  parameters.foldl (fun n p => n.declare p.name (some p.type)) {}

end Naming

mutual

/-- An expression with every local resolved. The value of an assignment is resolved before its target
is bound. -/
def Expr.resolve : Expr → Naming → Option (Outline.Expr Nat × Naming)
  | .literal value span, n => some (.literal value span, n)
  | .var name span, n => (n.bound.find? name).map fun k => (.var k span, n)
  | .binary op left right span, n => do
    let (left, n) ← left.resolve n
    let (right, n) ← right.resolve n
    return (.binary op left right span, n)
  | .unary op operand span, n => do
    let (operand, n) ← operand.resolve n
    return (.unary op operand span, n)
  | .update op target _ span, n => (n.bound.find? target).map fun k => (.update op k span, n)
  | .assign (.var name _) value span, n => do
    let (value, n) ← value.resolve n
    let (k, n) := n.assign name
    return (.assign k value span, n)
  | .assign _ _ _, _ => none
  | .convert operand _ target span, n => do
    let (operand, n) ← operand.resolve n
    return (.convert operand target span, n)
  | .call callee arguments span, n => do
    let (arguments, n) ← resolveExprs arguments n
    return (.call callee arguments span, n)

def resolveExprs : List Expr → Naming → Option (List (Outline.Expr Nat) × Naming)
  | [], n => some ([], n)
  | e :: es, n => do
    let (e, n) ← e.resolve n
    let (es, n) ← resolveExprs es n
    return (e :: es, n)

end

def resolveExpr? : Option Expr → Naming → Option (Option (Outline.Expr Nat) × Naming)
  | none, n => some (none, n)
  | some e, n => do
    let (e, n) ← e.resolve n
    return (some e, n)

/-- The step of a loop, which stands as a statement. -/
def resolveStep (step : Option Expr) (n : Naming) : Option (Option (Outline.Stmt Nat) × Naming) := do
  let (step, n) ← resolveExpr? step n
  return (step.map .ofExpr, n)

mutual

/-- A statement with every local resolved. Branches, bodies of loops and blocks work in a copy of the
names in sight, and so does a whole `for`; conditions of `if` and `while` do not. -/
def Stmt.resolve : Stmt → Naming → Option (Outline.Stmt Nat × Naming)
  | .function .., _ => none
  | .declare name declared value span, n => do
    let (value, n) ← resolveExpr? value n
    return (.declare n.sites.length value span, n.declare name declared)
  | .assign (.var name _) value span, n => do
    let (value, n) ← value.resolve n
    let (k, n) := n.assign name
    return (.assign k value span, n)
  | .assign _ _ _, _ => none
  | .branch condition yes no span, n => do
    let (condition, n) ← condition.resolve n
    let (yes, n₁) ← yes.resolve n
    let (no, n₂) ← resolveStmt? no (n.leave n₁)
    return (.branch condition yes no span, n.leave n₂)
  | .whileLoop condition body span, n => do
    let (condition, n) ← condition.resolve n
    let (body, n₁) ← body.resolve n
    return (.loop none (some condition) body none span, n.leave n₁)
  | .forLoop start condition step body span, n => do
    let (start, n₁) ← resolveStmt? start n
    let (condition, n₂) ← resolveExpr? condition n₁
    let (body, n₃) ← body.resolve n₂
    let (step, n₄) ← resolveStep step (n₂.leave n₃)
    return (.loop start condition body step span, n.leave n₄)
  | .breakLoop span, n => some (.breakLoop span, n)
  | .continueLoop span, n => some (.continueLoop span, n)
  | .returnValue value span, n => do
    let (value, n) ← resolveExpr? value n
    return (.returnValue value span, n)
  | .print value span, n => do
    let (value, n) ← value.resolve n
    return (.print value span, n)
  | .block body span, n => do
    let (body, n₁) ← resolveStmts body n
    return (.block body span, n.leave n₁)
  | .expression value _, n => do
    let (value, n) ← value.resolve n
    return (.expression value, n)
  | .call callee arguments span, n => do
    let (arguments, n) ← resolveExprs arguments n
    return (.call callee arguments span, n)

def resolveStmt? : Option Stmt → Naming → Option (Option (Outline.Stmt Nat) × Naming)
  | none, n => some (none, n)
  | some s, n => do
    let (s, n) ← s.resolve n
    return (some s, n)

def resolveStmts : List Stmt → Naming → Option (List (Outline.Stmt Nat) × Naming)
  | [], n => some ([], n)
  | s :: ss, n => do
    let (s, n) ← s.resolve n
    let (ss, n) ← resolveStmts ss n
    return (s :: ss, n)

end

end Numlet
