import Numlet.Token

/-!
The grammar as tables: how a token can open an expression, continue one, or start a statement, and how
strongly it binds.
-/
namespace Numlet

/-- How strongly an operator binds, from the weakest on. -/
inductive Level
  | weakest | comma | assignment | logical | relational | additive | multiplicative | unary | call
  | primary
deriving DecidableEq, Repr, Inhabited

namespace Level

def all : List Level :=
  [weakest, comma, assignment, logical, relational, additive, multiplicative, unary, call, primary]

def rank : Level → Nat
  | weakest => 0
  | comma => 1
  | assignment => 2
  | logical => 3
  | relational => 4
  | additive => 5
  | multiplicative => 6
  | unary => 7
  | call => 8
  | primary => 9

def name : Level → String
  | weakest => "Default"
  | comma => "Comma"
  | assignment => "Assignment"
  | logical => "Logical"
  | relational => "Relational"
  | additive => "Additive"
  | multiplicative => "Multiplicative"
  | unary => "Unary"
  | call => "Call"
  | primary => "Primary"

end Level

/-- The ways an expression begins. -/
inductive Opening
  | primary | unary | group
deriving DecidableEq, Repr

/-- The ways an expression goes on. -/
inductive Continuation
  | assignment | binary | conversion | call | update
deriving DecidableEq, Repr

/-- The statements that start with a token of their own. -/
inductive Form
  | declaration | branch | block | function | returning | whileLoop | forLoop | breaking
  | continuing | printing
deriving DecidableEq, Repr

structure Grammar where
  opening? : Kind → Option Opening
  continuation? : Kind → Option Continuation
  form? : Kind → Option Form
  level : Kind → Level

namespace Grammar

/-- The grammar of the language. -/
def standard : Grammar where
  opening?
    | .number | .identifier | .trueWord | .falseWord => some .primary
    | .dash | .plus | .not => some .unary
    | .openParen => some .group
    | _ => none
  continuation?
    | .assignment | .plusEquals | .minusEquals | .starEquals | .slashEquals => some .assignment
    | .and | .or | .less | .lessEquals | .greater | .greaterEquals | .equals | .notEquals
    | .plus | .dash | .star | .slash | .percent => some .binary
    | .asWord => some .conversion
    | .openParen => some .call
    | .plusPlus | .minusMinus => some .update
    | _ => none
  form?
    | .letWord => some .declaration
    | .ifWord => some .branch
    | .openCurly => some .block
    | .fnWord => some .function
    | .returnWord => some .returning
    | .whileWord => some .whileLoop
    | .forWord => some .forLoop
    | .breakWord => some .breaking
    | .continueWord => some .continuing
    | .printWord => some .printing
    | _ => none
  level
    | .assignment | .plusEquals | .minusEquals | .starEquals | .slashEquals => .assignment
    | .and | .or => .logical
    | .less | .lessEquals | .greater | .greaterEquals | .equals | .notEquals => .relational
    | .plus | .dash => .additive
    | .star | .slash | .percent => .multiplicative
    | .asWord => .unary
    | .openParen | .plusPlus | .minusMinus => .call
    | _ => .weakest

/-- A grammar without rules, which reads no expression. -/
def empty : Grammar := ⟨fun _ => none, fun _ => none, fun _ => none, fun _ => .weakest⟩

end Grammar
end Numlet
