import Numlet.NumType

/-!
The locals of a function under lowering. A local has one slot for good: parameters come first, then the
others in the order in which the code first touches them.
-/
namespace Numlet

structure Slot where
  index : Nat
  type : NumType
deriving DecidableEq, Repr, Inhabited

/-- The locals in the order of their indices. -/
structure Slots where
  entries : List (String × NumType) := []
  parameterCount : Nat := 0
deriving DecidableEq, Repr, Inhabited

namespace Slots

/-- Looks a name up in entries of which the first has index `i`. -/
def findFrom (name : String) (i : Nat) : List (String × NumType) → Option Slot
  | [] => none
  | (n, t) :: rest => if n = name then some ⟨i, t⟩ else findFrom name (i + 1) rest

def find? (s : Slots) (name : String) : Option Slot := findFrom name 0 s.entries

/-- The slot of a name; a new name gets the next one, of the given type. -/
def alloc (s : Slots) (name : String) (type : NumType) : Slot × Slots :=
  match s.find? name with
  | some slot => (slot, s)
  | none => (⟨s.entries.length, type⟩, { s with entries := s.entries ++ [(name, type)] })

/-- Adds a parameter; all locals so far count as parameters. -/
def addParameter (s : Slots) (name : String) (type : NumType) : Slot × Slots :=
  let (slot, s) := s.alloc name type
  (slot, { s with parameterCount := s.entries.length })

/-- The locals that are not parameters, with their indices. -/
def locals (s : Slots) : List (String × Slot) :=
  (s.entries.zipIdx.drop s.parameterCount).map fun e => (e.1.1, ⟨e.2, e.1.2⟩)

end Slots
end Numlet
