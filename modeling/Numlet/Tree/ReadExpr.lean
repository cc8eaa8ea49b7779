import Numlet.Binary64.Reading
import Numlet.Tree
import Numlet.Tree.Cursor
import Numlet.Tree.Grammar

/-!
Reading expressions by binding strength. Each way to open or continue an expression is a `Reading` that
is given the reading of its parts; `expr` ties them together. A part always lies behind the cursor that
its whole starts from, so reading ends.
-/
namespace Numlet.Reading

/-- Reads a part of an expression whose operators all bind more strongly than the level. -/
abbrev ExprReader := Level → Reading Expr

/-- The value of a number token: a fraction if it has a point, else a whole number of 64 bits. -/
def literal? (text : String) : Option Literal :=
  if text.toList.contains '.' then (Binary64.ofText? text.toList).map .fraction
  else (Binary64.integer? text.toList).bind fun n =>
    if -9223372036854775808 ≤ n ∧ n ≤ 9223372036854775807 then some (.int n) else none

def primary : Reading Expr := do
  let t := (← get).current
  match t.kind with
  | .number =>
    match literal? t.value with
    | some value => return .literal value (← take).span
    | none => throw ⟨.malformedNumber t.value, t.span.start⟩
  | .trueWord => return .literal (.int 1) (← take).span
  | .falseWord => return .literal (.int 0) (← take).span
  | .identifier => return .var t.value (← take).span
  | _ => refuse

/-- An operator before its operand. -/
def unary (expr : ExprReader) : Reading Expr := do
  let sign ← take
  let op := match sign.kind with
    | .dash => UnaryOp.negate
    | .not => UnaryOp.not
    | _ => UnaryOp.plus
  let operand ← expr .unary
  return .unary op operand ⟨sign.span.start, operand.span.stop⟩

/-- An expression in parentheses is the expression itself. -/
def group (expr : ExprReader) : Reading Expr := do
  let _ ← take
  let inner ← expr .weakest
  let _ ← expect .closeParen
  return inner

/-- Operators of one level group to the left. -/
def binary (expr : ExprReader) (left : Expr) (level : Level) : Reading Expr := do
  let sign ← take
  match BinaryOp.ofKind? sign.kind with
  | none => throw ⟨.unexpectedToken sign.value, sign.span.start⟩
  | some op =>
    let right ← expr level
    return .binary op left right ⟨left.span.start, right.span.stop⟩

/-- Assignments group to the right. A compound one stores the operator's result. -/
def assignment (expr : ExprReader) (left : Expr) : Reading Expr := do
  let sign ← take
  let right ← expr .comma
  let span : Span := ⟨left.span.start, right.span.stop⟩
  match BinaryOp.ofKind? sign.kind with
  | some op => return .assign left (.binary op left right span) span
  | none => return .assign left right span

/-- Only a name can be called. -/
def call (expr : ExprReader) (left : Expr) : Reading Expr :=
  match left with
  | .var callee span => do
    let _ ← take
    let arguments ← commaList (expr .comma) "expected `,` or `)` in argument list"
    let _ ← expect .closeParen
    return .call callee arguments ⟨span.start, ← lastEnd⟩
  | other =>
    throw ⟨.unexpectedTokenDetailed "(" "only named functions can be called", other.span.start⟩

/-- Only a variable can be stepped. -/
def update (left : Expr) : Reading Expr := do
  let sign ← take
  let op := if sign.kind = .plusPlus then UpdateOp.increment else UpdateOp.decrement
  match left with
  | .var target span => return .update op target span ⟨span.start, sign.span.stop⟩
  | other =>
    throw ⟨.unexpectedTokenDetailed sign.value "increment and decrement need a variable operand",
      other.span.start⟩

/-- The name of a number type. -/
def numType : Reading NumType := do
  let word ← expectOr .identifier "expected a type name"
  match NumType.ofName? word.value with
  | some t => return t
  | none => throw ⟨.unknownType word.value, word.span.start⟩

def conversion (left : Expr) : Reading Expr := do
  let _ ← take
  let target ← numType
  return .convert left none target ⟨left.span.start, ← lastEnd⟩

/-- The first part of an expression. -/
def opening (g : Grammar) (expr : ExprReader) : Reading Expr := do
  match g.opening? (← kind) with
  | none => refuse
  | some .primary => primary
  | some .unary => unary expr
  | some .group => group expr

/-- One step from `left` to a longer expression. -/
def continuation (g : Grammar) (expr : ExprReader) (left : Expr) : Reading Expr := do
  let kind ← kind
  match g.continuation? kind with
  | none => refuse
  | some .assignment => assignment expr left
  | some .binary => binary expr left (g.level kind)
  | some .conversion => conversion left
  | some .call => call expr left
  | some .update => update left

/-- Lengthens `left` while the next operator binds more strongly than the level. -/
def climb (g : Grammar) (expr : ExprReader) (level : Level) (left : Expr) (c : Cursor) :
    EStateM.Result Diagnostic Cursor Expr :=
  if level.rank < (g.level c.kind).rank then
    match continuation g expr left c with
    | .error d c' => .error d c'
    | .ok longer c' =>
      if c'.remaining < c.remaining then climb g expr level longer c' else refuse c'
  else .ok left c
termination_by c.remaining

/-- An expression, given the reading of its parts. -/
def exprStep (g : Grammar) (expr : ExprReader) (level : Level) : Reading Expr := do
  let left ← opening g expr
  climb g expr level left

/-- An expression whose operators all bind more strongly than the level. -/
def expr (g : Grammar) (level : Level) (c : Cursor) : EStateM.Result Diagnostic Cursor Expr :=
  exprStep g (fun l c' => if c'.remaining < c.remaining then expr g l c' else refuse c') level c
termination_by c.remaining

end Numlet.Reading
