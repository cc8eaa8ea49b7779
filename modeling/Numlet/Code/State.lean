import Numlet.Code.Instr
import Numlet.Code.Slots
import Numlet.Event
import Numlet.Typed

/-!
The state of a lowering and its basic steps. A failing step keeps the instructions written so far.
-/
namespace Numlet

structure Emitter where
  program : Typed.Program
  /-- The host functions called so far. -/
  usedHosts : List Host := []
  /-- The instructions of the current function. -/
  output : Array Instr := #[]
  slots : Slots := {}
  /-- The types of the current function's locals. -/
  storage : Table NumType := .empty
  /-- The result of the current function. -/
  result : Option NumType := none
  /-- The loops around the current statement, the innermost first. -/
  loops : List Nat := []
  nextLabel : Nat := 0
  log : Array Event := #[]
deriving Repr, Inhabited

abbrev Lowering := EStateM Diagnostic Emitter

namespace Lowering

def report (event : Event) : Lowering Unit := modify fun s => { s with log := s.log.push event }

def emit (i : Instr) : Lowering Unit := modify fun s => { s with output := s.output.push i }

/-- Turns the value on top of the stack into one of another type. -/
def coerce (source target : NumType) (span : Span) : Lowering Unit :=
  match Conversion.plan source target span.start with
  | .ok none => return
  | .ok (some c) => emit (.convert c)
  | .error d => throw d

/-- Changes the slots by an operation on a name, and reports a slot that is new. -/
def changeSlots (name : String) (change : Slots → Slot × Slots) : Lowering Slot := do
  let s ← get
  let (slot, slots) := change s.slots
  if (s.slots.find? name).isNone then report (.slotAllocated slot.index name slot.type)
  modify fun s => { s with slots := slots }
  return slot

def addParameter (name : String) (type : NumType) : Lowering Slot :=
  changeSlots name (·.addParameter name type)

/-- The slot of a local. A new one has the type of its storage, or the given type without one. -/
def slotFor (name : String) (fallback : NumType) : Lowering Slot := do
  let type := ((← get).storage.find? name).getD fallback
  changeSlots name (·.alloc name type)

/-- Stores the value on top of the stack, of the given type, into a local. -/
def store (name : String) (type : NumType) (span : Span) : Lowering Slot := do
  let slot ← slotFor name type
  coerce type slot.type span
  emit (.setLocal name)
  return slot

/-- Puts a local on the stack as a value of the given type. -/
def load (name : String) (type : NumType) (span : Span) : Lowering Slot := do
  let slot ← slotFor name type
  emit (.getLocal name)
  coerce slot.type type span
  return slot

def newLabel : Lowering Nat := modifyGet fun s => (s.nextLabel, { s with nextLabel := s.nextLabel + 1 })

/-- Calls a function and remembers the host's. -/
def call (callee : String) : Lowering Unit := do
  if let some host := Host.find? callee then
    modify fun s => { s with usedHosts := s.usedHosts.insert host }
  emit (.call (Host.resolve callee))

/-- The result of a function of the host or the program. -/
def functionResult (callee : String) (span : Span) : Lowering (Option NumType) := do
  match Host.find? callee with
  | some host => return host.result
  | none =>
    match (← get).program.find? callee with
    | some f => return f.result
    | none => throw (.undeclared callee span)

/-- The innermost loop, for a jump. -/
def innermost (construct : String) (span : Span) : Lowering Nat := do
  match (← get).loops with
  | label :: _ => return label
  | [] => throw (.malformed ("`" ++ construct ++ "` with no enclosing loop") span)

/-- Runs a part inside a loop. -/
def inLoop (label : Nat) (inner : Lowering Unit) : Lowering Unit := fun s =>
  match inner { s with loops := label :: s.loops } with
  | .ok a s' => .ok a { s' with loops := s.loops }
  | .error d s' => .error d { s' with loops := s.loops }

end Lowering
end Numlet
