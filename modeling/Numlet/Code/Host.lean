import Numlet.NumType

/-!
The functions that the host provides. A program calls them by name; a module imports them under their
targets, some of which carry signs of their own.
-/
namespace Numlet

inductive Host
  | input | inputF64 | alloc | askModel
  | print (type : NumType)
deriving DecidableEq, Repr, Inhabited

namespace Host

/-- The order of imports. -/
def all : List Host :=
  [input, inputF64, alloc, askModel, print .i32, print .i64, print .f32, print .f64]

/-- The name in a program. -/
def name : Host → String
  | input => "input"
  | inputF64 => "input_f64"
  | alloc => "alloc"
  | askModel => "ask_model"
  | print t => "print_" ++ t.name

/-- The name that calls and imports refer to. -/
def target : Host → String
  | input => "$$read_i32"
  | inputF64 => "$$read_f64"
  | alloc => "$$bump_alloc"
  | askModel => "model_call"
  | print t => "print_" ++ t.name

def parameters : Host → List NumType
  | input | inputF64 => []
  | alloc => [.i32]
  | askModel => [.i32, .i32]
  | print t => [t]

def result : Host → Option NumType
  | input | alloc | askModel => some .i32
  | inputF64 => some .f64
  | print _ => none

/-- The module that imports come from. -/
def moduleName : String := "env"

def find? (name : String) : Option Host := all.find? (·.name == name)

/-- The name that a call of `callee` is written with. -/
def resolve (callee : String) : String :=
  match find? callee with
  | some host => host.target
  | none => callee

end Host

/-- A name without the signs before it. -/
def bareName (name : String) : String := String.ofList (name.toList.dropWhile (· == '$'))

/-- A name with exactly one sign before it. -/
def signed (name : String) : String := "$" ++ bareName name

end Numlet
