import Numlet.Table
import Numlet.Tree

/-!
Checked programs. Every expression carries its type, and every name has become the slot of the
declaration that it means.
-/
namespace Numlet.Typed

inductive Expr
  | literal (value : Literal) (type : NumType) (span : Span)
  | var (slot : String) (type : NumType) (span : Span)
  | binary (op : BinaryOp) (left right : Expr) (operandType type : NumType) (span : Span)
  | unary (op : UnaryOp) (operand : Expr) (type : NumType) (span : Span)
  | update (op : UpdateOp) (slot : String) (type : NumType) (span : Span)
  | assign (slot : String) (value : Expr) (type : NumType) (span : Span)
  | convert (operand : Expr) (source target type : NumType) (span : Span)
  | call (callee : String) (arguments : List Expr) (parameterTypes : List NumType)
      (callSpan : Span) (type : NumType) (span : Span)
deriving Repr, Inhabited

namespace Expr

/-- The type of the value. -/
def type : Expr → NumType
  | literal _ t _ | var _ t _ | binary _ _ _ _ t _ | unary _ _ t _ | update _ _ t _
  | assign _ _ t _ | convert _ _ _ t _ | call _ _ _ _ t _ => t

def span : Expr → Span
  | literal _ _ s | var _ _ s | binary _ _ _ _ _ s | unary _ _ _ s | update _ _ _ s
  | assign _ _ _ s | convert _ _ _ _ s | call _ _ _ _ _ s => s

end Expr

/-- Both kinds of loop have one form here. A declaration without a value stores zero. -/
inductive Stmt
  | declare (slot : String) (value : Option Expr) (type : NumType) (span : Span)
  | assign (slot : String) (value : Expr) (span : Span)
  | branch (condition : Expr) (yes : Stmt) (no : Option Stmt) (span : Span)
  | loop (start : Option Stmt) (condition : Option Expr) (body : Stmt) (step : Option Stmt)
      (span : Span)
  | breakLoop (span : Span)
  | continueLoop (span : Span)
  | returnValue (value : Option Expr) (span : Span)
  | print (value : Expr) (span : Span)
  | block (body : List Stmt) (span : Span)
  | expression (value : Expr)
  | call (callee : String) (arguments : List Expr) (parameterTypes : List NumType) (span : Span)
deriving Repr, Inhabited

namespace Stmt

def isEmptyBlock : Stmt → Bool
  | block [] _ => true
  | _ => false

def isReturn : Stmt → Bool
  | returnValue _ _ => true
  | _ => false

end Stmt

structure Parameter where
  name : String
  type : NumType
deriving DecidableEq, Repr, Inhabited

/-- A checked function. Its storage gives every local, parameters included, the widest type that it
holds anywhere in the body. -/
structure Function where
  name : String
  parameters : List Parameter
  result : Option NumType
  body : List Stmt
  bodySpan : Span
  storage : Table NumType
  span : Span
deriving Repr, Inhabited

/-- The functions in source order, and the one that holds the top-level statements. -/
structure Program where
  functions : List Function
  entry : Function
deriving Repr, Inhabited

def Program.find? (p : Program) (name : String) : Option Function :=
  (p.functions ++ [p.entry]).find? (·.name == name)

end Numlet.Typed
