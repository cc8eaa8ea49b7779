import Numlet.Literal
import Numlet.Span
import Numlet.Token

/-!
Programs as they are written: expressions, statements and functions, each node with its stretch of
source.
-/
namespace Numlet

inductive BinaryOp
  | add | subtract | multiply | divide | remainder
  | equals | notEquals | less | lessEquals | greater | greaterEquals
  | and | or
deriving DecidableEq, Repr, Inhabited

namespace BinaryOp

def name : BinaryOp → String
  | add => "Add"
  | subtract => "Subtract"
  | multiply => "Multiply"
  | divide => "Divide"
  | remainder => "Remainder"
  | equals => "Equals"
  | notEquals => "NotEquals"
  | less => "Less"
  | lessEquals => "LessEquals"
  | greater => "Greater"
  | greaterEquals => "GreaterEquals"
  | and => "And"
  | or => "Or"

def all : List BinaryOp :=
  [add, subtract, multiply, divide, remainder, equals, notEquals, less, lessEquals, greater,
    greaterEquals, and, or]

/-- The operator that a token stands for, alone or in a compound assignment. -/
def ofKind? : Kind → Option BinaryOp
  | .plus | .plusEquals => some add
  | .dash | .minusEquals => some subtract
  | .star | .starEquals => some multiply
  | .slash | .slashEquals => some divide
  | .percent => some remainder
  | .equals => some equals
  | .notEquals => some notEquals
  | .less => some less
  | .lessEquals => some lessEquals
  | .greater => some greater
  | .greaterEquals => some greaterEquals
  | .and => some and
  | .or => some or
  | _ => none

def isArithmetic : BinaryOp → Bool
  | add | subtract | multiply | divide | remainder => true
  | _ => false

def isComparison : BinaryOp → Bool
  | equals | notEquals | less | lessEquals | greater | greaterEquals => true
  | _ => false

def isLogical : BinaryOp → Bool
  | and | or => true
  | _ => false

end BinaryOp

inductive UnaryOp
  | plus | negate | not
deriving DecidableEq, Repr, Inhabited

def UnaryOp.name : UnaryOp → String
  | plus => "Plus"
  | negate => "Negate"
  | not => "Not"

/-- The steps `++` and `--`. -/
inductive UpdateOp
  | increment | decrement
deriving DecidableEq, Repr, Inhabited

def UpdateOp.name : UpdateOp → String
  | increment => "Increment"
  | decrement => "Decrement"

inductive Expr
  | literal (value : Literal) (span : Span)
  | var (name : String) (span : Span)
  | binary (op : BinaryOp) (left right : Expr) (span : Span)
  | unary (op : UnaryOp) (operand : Expr) (span : Span)
  | update (op : UpdateOp) (target : String) (targetSpan span : Span)
  | assign (target value : Expr) (span : Span)
  | convert (operand : Expr) (source : Option NumType) (target : NumType) (span : Span)
  | call (callee : String) (arguments : List Expr) (span : Span)
deriving Repr, Inhabited

def Expr.span : Expr → Span
  | literal _ s | var _ s | binary _ _ _ s | unary _ _ s | update _ _ _ s | assign _ _ s
  | convert _ _ _ s | call _ _ s => s

/-- Whether an expression is built from literals alone. -/
def Expr.isConstant : Expr → Bool
  | literal _ _ => true
  | unary _ operand _ => operand.isConstant
  | binary _ left right _ => left.isConstant && right.isConstant
  | _ => false

structure Parameter where
  name : String
  declared : Option NumType
  span : Span
deriving DecidableEq, Repr, Inhabited

/-- A parameter without a type holds an `i32`. -/
def Parameter.type (p : Parameter) : NumType := p.declared.getD .i32

inductive Stmt
  | function (name : String) (parameters : List Parameter) (result : Option NumType)
      (body : List Stmt) (bodySpan span : Span)
  | declare (name : String) (declared : Option NumType) (value : Option Expr) (span : Span)
  | assign (target value : Expr) (span : Span)
  | branch (condition : Expr) (yes : Stmt) (no : Option Stmt) (span : Span)
  | whileLoop (condition : Expr) (body : Stmt) (span : Span)
  | forLoop (start : Option Stmt) (condition step : Option Expr) (body : Stmt) (span : Span)
  | breakLoop (span : Span)
  | continueLoop (span : Span)
  | returnValue (value : Option Expr) (span : Span)
  | print (value : Expr) (span : Span)
  | block (body : List Stmt) (span : Span)
  | expression (value : Expr) (span : Span)
  | call (callee : String) (arguments : List Expr) (span : Span)
deriving Repr, Inhabited

/-- An expression as a statement. Assignments and calls leave no value behind, so they have forms of
their own. -/
def Stmt.ofExpr : Expr → Stmt
  | .assign target value span => .assign target value span
  | .call callee arguments span => .call callee arguments span
  | e => .expression e e.span

structure Function where
  name : String
  parameters : List Parameter
  result : Option NumType
  body : List Stmt
  bodySpan : Span
  span : Span
deriving Repr, Inhabited

/-- The functions in source order, and the other statements. -/
structure Program where
  functions : List Function
  body : List Stmt
  bodySpan : Span
deriving Repr, Inhabited

end Numlet
