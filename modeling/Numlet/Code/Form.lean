import Numlet.Code.Instr
import Numlet.Typed

/-!
The parts of a module and their text.
-/
namespace Numlet

/-- A function with its locals declared in front of its instructions. -/
structure FunctionForm where
  name : String
  exportName : Option String
  parameters : List Typed.Parameter
  result : Option NumType
  locals : List (String × NumType)
  body : List Instr
deriving DecidableEq, Repr

def parameterText (t : NumType) : String := " (param " ++ t.name ++ ")"

def resultText : Option NumType → String
  | none => ""
  | some t => " (result " ++ t.name ++ ")"

namespace FunctionForm

def header (f : FunctionForm) : String :=
  "(func " ++ signed f.name ++
    (match f.exportName with
      | none => ""
      | some name => " (export \"" ++ name ++ "\")") ++
    String.join (f.parameters.map fun p => " (param " ++ signed p.name ++ " " ++ p.type.name ++ ")") ++
    resultText f.result

/-- The lines of the form, from its header to its closing parenthesis. -/
def lines (f : FunctionForm) : List String :=
  [f.header] ++
    f.locals.map (fun l => "  (local " ++ signed l.1 ++ " " ++ l.2.name ++ ")") ++
    Instr.indented 1 f.body ++ [")"]

end FunctionForm

/-- The import of a host function. -/
def Host.importText (h : Host) : String :=
  "(import \"" ++ moduleName ++ "\" \"" ++ bareName h.target ++ "\" (func " ++ signed h.target ++
    String.join (h.parameters.map parameterText) ++ resultText h.result ++ "))"

structure WatModule where
  imports : List Host
  functions : List FunctionForm
deriving DecidableEq, Repr

namespace WatModule

/-- Imports come first, then the functions, each line two spaces in. -/
def lines (m : WatModule) : List String :=
  ["(module"] ++
    (m.imports.map Host.importText ++ m.functions.flatMap FunctionForm.lines).map ("  " ++ ·) ++
    [")"]

def text (m : WatModule) : String := String.join (m.lines.map (· ++ "\n"))

end WatModule
end Numlet
