import Numlet.NumType
import Numlet.Table

/-!
What names mean at a point of a program. A block works on a copy of the scope around it, so nothing that
it declares or widens is seen once it is done.
-/
namespace Numlet

structure Variable where
  type : NumType
  /-- Declared with a type, so that no assignment widens it. -/
  fixed : Bool
  /-- The local that holds it. -/
  slot : String
deriving DecidableEq, Repr, Inhabited

structure Scope where
  bindings : Table Variable := .empty
  /-- Inside the body of a loop. -/
  inLoop : Bool := false
  /-- The function whose body this is, if any. -/
  function : Option String := none
deriving Repr, Inhabited

namespace Scope

def forFunction (name : String) : Scope := { function := some name }

/-- The scope of a loop's body. -/
def loopBody (s : Scope) : Scope := { s with inLoop := true }

/-- Binds a name, in place of any earlier binding. -/
def declare (s : Scope) (name slot : String) (type : NumType) (fixed : Bool) : Scope :=
  { s with bindings := s.bindings.insert name ⟨type, fixed, slot⟩ }

def find? (s : Scope) (name : String) : Option Variable := s.bindings.find? name

/-- Changes the type of a bound name. -/
def retype (s : Scope) (name : String) (type : NumType) : Scope :=
  match s.find? name with
  | none => s
  | some v => { s with bindings := s.bindings.insert name { v with type := type } }

/-- Whether two scopes bind the same names to the same meanings in the same context. -/
def agrees (s t : Scope) : Bool :=
  s.bindings.agrees t.bindings && s.inLoop == t.inLoop && s.function == t.function

end Scope
end Numlet
