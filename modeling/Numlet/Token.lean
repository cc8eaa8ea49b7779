import Numlet.Span

/-!
Tokens: the words and signs of a program, each with the stretch of source it was read from.
-/
namespace Numlet

inductive Kind
  | eof | number | identifier
  | openCurly | closeCurly | openParen | closeParen
  | assignment | equals | not | notEquals
  | less | lessEquals | greater | greaterEquals
  | or | and
  | semicolon | colon | comma | arrow
  | plusPlus | minusMinus | plusEquals | minusEquals | slashEquals | starEquals
  | plus | dash | slash | star | percent
  | letWord | fnWord | returnWord | ifWord | elseWord | whileWord | forWord | breakWord
  | continueWord | printWord | asWord | trueWord | falseWord
deriving DecidableEq, Repr, Inhabited

namespace Kind

def name : Kind → String
  | eof => "EOF"
  | number => "Number"
  | identifier => "Identifier"
  | openCurly => "OpenCurly"
  | closeCurly => "CloseCurly"
  | openParen => "OpenParen"
  | closeParen => "CloseParen"
  | assignment => "Assignment"
  | equals => "Equals"
  | not => "Not"
  | notEquals => "NotEquals"
  | less => "Less"
  | lessEquals => "LessEquals"
  | greater => "Greater"
  | greaterEquals => "GreaterEquals"
  | or => "Or"
  | and => "And"
  | semicolon => "Semicolon"
  | colon => "Colon"
  | comma => "Comma"
  | arrow => "Arrow"
  | plusPlus => "PlusPlus"
  | minusMinus => "MinusMinus"
  | plusEquals => "PlusEquals"
  | minusEquals => "MinusEquals"
  | slashEquals => "SlashEquals"
  | starEquals => "StarEquals"
  | plus => "Plus"
  | dash => "Dash"
  | slash => "Slash"
  | star => "Star"
  | percent => "Percent"
  | letWord => "Let"
  | fnWord => "Fn"
  | returnWord => "Return"
  | ifWord => "If"
  | elseWord => "Else"
  | whileWord => "While"
  | forWord => "For"
  | breakWord => "Break"
  | continueWord => "Continue"
  | printWord => "Print"
  | asWord => "As"
  | trueWord => "True"
  | falseWord => "False"

def all : List Kind :=
  [eof, number, identifier, openCurly, closeCurly, openParen, closeParen, assignment, equals, not,
    notEquals, less, lessEquals, greater, greaterEquals, or, and, semicolon, colon, comma, arrow,
    plusPlus, minusMinus, plusEquals, minusEquals, slashEquals, starEquals, plus, dash, slash, star,
    percent, letWord, fnWord, returnWord, ifWord, elseWord, whileWord, forWord, breakWord,
    continueWord, printWord, asWord, trueWord, falseWord]

def ofName? (name : String) : Option Kind := all.find? (·.name == name)

/-- The words that are not names. -/
def reserved : List (String × Kind) :=
  [("let", letWord), ("fn", fnWord), ("return", returnWord), ("if", ifWord), ("else", elseWord),
    ("while", whileWord), ("for", forWord), ("break", breakWord), ("continue", continueWord),
    ("print", printWord), ("as", asWord), ("true", trueWord), ("false", falseWord)]

/-- A word is a reserved one or a name. -/
def ofWord (word : String) : Kind := (reserved.lookup word).getD identifier

end Kind

structure Token where
  kind : Kind
  value : String
  span : Span
deriving DecidableEq, Repr, Inhabited

/-- Names and numbers are shown with their text, other tokens by their kind alone. -/
def Token.describe (t : Token) : String :=
  match t.kind with
  | .identifier | .number => t.kind.name ++ " (" ++ t.value ++ ")"
  | kind => kind.name

/-- The mark after the last token of a text. -/
def Token.ending (place : Position) : Token := ⟨.eof, "EOF", .empty place⟩

end Numlet
