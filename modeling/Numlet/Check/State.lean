import Numlet.Check.Scope
import Numlet.Code.Host
import Numlet.Diagnostic
import Numlet.Event
import Numlet.Options
import Numlet.Typed

/-!
The state of a checker and its basic steps. A failing step keeps what it has changed so far, but the
scope of an inner block is always left.
-/
namespace Numlet

/-- What callers know of a function. -/
structure Signature where
  parameters : List NumType
  result : Option NumType
  /-- Declared, given by the host, or pinned by a call that used it. -/
  resultFixed : Bool
  /-- The body has been checked. -/
  checked : Bool
deriving DecidableEq, Repr, Inhabited

structure Checker where
  options : Options
  signatures : Table Signature
  /-- The widest type of each local of the current function so far. -/
  storage : Table NumType := .empty
  /-- The storage at the end of the previous pass over the current function. -/
  readTypes : Table NumType := .empty
  /-- How often each name has been declared in the current function. -/
  declarations : Table Nat := .empty
  /-- The current function has returned without a value. -/
  bareReturn : Bool := false
  /-- The current function has returned a value. -/
  valuedReturn : Bool := false
  scope : Scope := {}
  log : Array Event := #[]
deriving Repr, Inhabited

def Signature.ofHost (h : Host) : Signature := ⟨h.parameters, h.result, true, true⟩

/-- The checker before any function: it knows those of the host. -/
def Checker.new (options : Options) : Checker where
  options := options
  signatures := .ofList (Host.all.map fun h => (h.name, .ofHost h))

abbrev Checking := EStateM Diagnostic Checker

namespace Checking

def report (event : Event) : Checking Unit := modify fun s => { s with log := s.log.push event }

/-- Runs an inner part in a scope made from the current one and comes back to the current one. -/
def within {α : Type} (enter : Scope → Scope) (inner : Checking α) : Checking α := fun s =>
  match inner { s with scope := enter s.scope } with
  | .ok a s' => .ok a { s' with scope := s.scope }
  | .error d s' => .error d { s' with scope := s.scope }

/-- Widens the storage of a slot to hold a value of the given type. -/
def record (slot : String) (type : NumType) : Checking Unit := do
  let s ← get
  let widened := NumType.joinKnown (s.storage.find? slot) (some type)
  if s.storage.find? slot ≠ some widened then report (.storageChanged slot widened)
  modify fun s => { s with storage := s.storage.insert slot widened }

/-- The first declaration of a name in a function has the name as its slot; later ones get a number,
which no name in a source can have. -/
def slotName (name : String) (earlier : Nat) : String :=
  if earlier = 0 then name else name ++ "." ++ toString earlier

/-- Declares a name in the current scope and gives its slot. -/
def declareLocal (name : String) (type : NumType) (fixed : Bool) : Checking String := do
  let earlier := ((← get).declarations.find? name).getD 0
  let slot := slotName name earlier
  modify fun s => { s with
    declarations := s.declarations.insert name (earlier + 1)
    scope := s.scope.declare name slot type fixed }
  record slot type
  return slot

/-- The type that reads of a slot have: its storage in the previous pass, if that met it. -/
def readType (slot : String) (type : NumType) : Checking NumType :=
  return ((← get).readTypes.find? slot).getD type

/-- What a name means here. -/
def lookup? (name : String) : Checking (Option Variable) := return (← get).scope.find? name

/-- What a name means, which must be declared. -/
def variableOf (name : String) (span : Span) : Checking Variable := do
  match ← lookup? name with
  | some v => return v
  | none => throw (.undeclared name span)

/-- What is known of a function, which must be declared. -/
def signatureOf (name : String) (span : Span) : Checking Signature := do
  match (← get).signatures.find? name with
  | some signature => return signature
  | none => throw (.undeclared name span)

def setSignature (name : String) (signature : Signature) : Checking Unit :=
  modify fun s => { s with signatures := s.signatures.insert name signature }

end Checking
end Numlet
