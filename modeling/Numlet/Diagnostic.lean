import Numlet.Span
import Numlet.NumType
import Numlet.Text.Quoted

/-!
What can be wrong with a program. A `Fault` is a cause with what it is about; its name, its message and
its tip are each written in one function. A `Diagnostic` is a fault at a place.
-/
namespace Numlet

inductive Fault
  | unrecognisedToken (token : String)
  | unexpectedToken (token : String)
  | unexpectedTokenDetailed (token message : String)
  | malformedNumber (token : String)
  | unknownType (name : String)
  | undeclaredName (name : String)
  | functionAlreadyDeclared (function : String)
  | contextViolation (construct context : String)
  | typeIncompatibility (expected received : String)
  | unexpectedArguments (function : String) (expected received : Nat)
  | missingArguments (function : String) (expected received : Nat)
  | argumentTypeMismatch (function : String) (expected received : NumType)
  | malformedNode (message : String)
  | unsupportedConversion (source target : NumType)
deriving DecidableEq, Repr, Inhabited

/-- The families of faults. -/
inductive Category
  | grammatical
  | undeclaredName
  | contextViolation
  | typeIncompatibility
  | arityOrSignatureMismatch
  | malformedNode
  | unsupportedConversion
deriving DecidableEq, Repr

def Category.name : Category → String
  | .grammatical => "Syntax"
  | .undeclaredName => "UndeclaredName"
  | .contextViolation => "ContextViolation"
  | .typeIncompatibility => "TypeIncompatibility"
  | .arityOrSignatureMismatch => "ArityOrSignatureMismatch"
  | .malformedNode => "MalformedNode"
  | .unsupportedConversion => "UnsupportedConversion"

namespace Fault

def name : Fault → String
  | unrecognisedToken .. => "UnrecognisedToken"
  | unexpectedToken .. => "UnexpectedToken"
  | unexpectedTokenDetailed .. => "UnexpectedTokenDetailed"
  | malformedNumber .. => "NumberParseError"
  | unknownType .. => "UnknownType"
  | undeclaredName .. => "UndeclaredName"
  | functionAlreadyDeclared .. => "FunctionAlreadyDeclared"
  | contextViolation .. => "ContextViolation"
  | typeIncompatibility .. => "TypeIncompatibility"
  | unexpectedArguments .. => "UnexpectedArguments"
  | missingArguments .. => "MissingArguments"
  | argumentTypeMismatch .. => "ArgumentTypeMatchError"
  | malformedNode .. => "MalformedNode"
  | unsupportedConversion .. => "UnsupportedConversion"

def category : Fault → Category
  | unrecognisedToken .. | unexpectedToken .. | unexpectedTokenDetailed .. | malformedNumber ..
  | unknownType .. => .grammatical
  | undeclaredName .. => .undeclaredName
  | contextViolation .. => .contextViolation
  | typeIncompatibility .. => .typeIncompatibility
  | functionAlreadyDeclared .. | unexpectedArguments .. | missingArguments ..
  | argumentTypeMismatch .. => .arityOrSignatureMismatch
  | malformedNode .. => .malformedNode
  | unsupportedConversion .. => .unsupportedConversion

/-- What is wrong, without the name of the fault. -/
def summary : Fault → String
  | unrecognisedToken t => "unrecognised token: " ++ Text.quoted t
  | unexpectedToken t => "unexpected token: " ++ Text.quoted t
  | unexpectedTokenDetailed t m =>
    "unexpected token (" ++ Text.quoted m ++ "): " ++ Text.quoted t
  | malformedNumber t => "error parsing number: " ++ Text.quoted t
  | unknownType n => "unknown type " ++ n ++ " found"
  | undeclaredName n => "name " ++ Text.quoted n ++ " not declared"
  | functionAlreadyDeclared f => "function " ++ Text.quoted f ++ " already declared"
  | contextViolation c x => "`" ++ c ++ "` outside of " ++ x
  | typeIncompatibility e r => "types do not match: expected " ++ e ++ ", received " ++ r
  | unexpectedArguments f e r =>
    "unexpected arguments to " ++ Text.quoted f ++ ": expected " ++ toString e ++ ", received " ++
      toString r
  | missingArguments f e r =>
    "missing arguments to " ++ Text.quoted f ++ ": expected " ++ toString e ++ ", received " ++
      toString r
  | argumentTypeMismatch f e r =>
    "argument types of " ++ Text.quoted f ++ " do not match: expected " ++ e.name ++
      ", received " ++ r.name
  | malformedNode m => "malformed node: " ++ m
  | unsupportedConversion s t => "unsupported conversion from " ++ s.name ++ " to " ++ t.name

def message (f : Fault) : String := f.name ++ ": " ++ f.summary

/-- Advice for the writer of the program; an unrecognised character has none. -/
def tip? : Fault → Option String
  | unrecognisedToken _ => none
  | unexpectedToken t => some ("Unexpected token: `" ++ t ++ "`, did you miss a semicolon?")
  | unexpectedTokenDetailed t m => some ("Unexpected token: `" ++ t ++ "`, " ++ m)
  | malformedNumber t => some ("Invalid number: `" ++ t ++ "`, is it above the integer limit?")
  | unknownType n => some ("Unknown type `" ++ n ++ "`, expected one of i32, i64, f32, f64")
  | undeclaredName n => some ("`" ++ n ++ "` is not declared in this scope")
  | functionAlreadyDeclared f => some ("Function `" ++ f ++ "` already declared")
  | contextViolation c x => some ("`" ++ c ++ "` is only allowed inside " ++ x)
  | typeIncompatibility e r => some ("Expected type `" ++ e ++ "`, received `" ++ r ++ "`")
  | unexpectedArguments f e r | missingArguments f e r =>
    some ("`" ++ f ++ "` expects " ++ toString e ++ " arguments, received " ++ toString r)
  | argumentTypeMismatch f e r =>
    some ("`" ++ f ++ "` expected argument type `" ++ e.name ++ "`, received `" ++ r.name ++ "`")
  | malformedNode m => some m
  | unsupportedConversion s t =>
    some ("No conversion from `" ++ s.name ++ "` to `" ++ t.name ++ "`")

end Fault

structure Diagnostic where
  fault : Fault
  position : Position
deriving DecidableEq, Repr, Inhabited

/-- A value of type `received` stands where `expected` is needed. -/
def Diagnostic.mismatch (expected received : String) (span : Span) : Diagnostic :=
  ⟨.typeIncompatibility expected received, span.start⟩

def Diagnostic.malformed (message : String) (span : Span) : Diagnostic :=
  ⟨.malformedNode message, span.start⟩

def Diagnostic.undeclared (name : String) (span : Span) : Diagnostic :=
  ⟨.undeclaredName name, span.start⟩

end Numlet
