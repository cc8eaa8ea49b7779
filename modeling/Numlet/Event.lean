import Numlet.NumType
import Numlet.Span

/-!
What checking and lowering report while they run.
-/
namespace Numlet

inductive Event
  | checkingFunction (name : String)
  | checkingEntry (name : String)
  | storageSettled (passes : Nat)
  | storageChanged (slot : String) (type : NumType)
  /-- An assignment has declared its target, which stands at `place`. -/
  | autoDeclared (name : String) (type : NumType) (place : Position)
  | resultPinned (function : String) (type : NumType)
  | conversionDiffers (declared actual : NumType)
  | lowering (function : String)
  | slotAllocated (index : Nat) (name : String) (type : NumType)
  | lowered (function : String) (slots instructions : Nat)
deriving DecidableEq, Repr, Inhabited

namespace Event

/-- The two grades of detail. -/
inductive Grade
  | debug | trace
deriving DecidableEq, Repr

def Grade.name : Grade → String
  | debug => "DEBUG"
  | trace => "TRACE"

def grade : Event → Grade
  | checkingFunction .. | checkingEntry .. | resultPinned .. | conversionDiffers ..
  | lowering .. => .debug
  | storageSettled .. | storageChanged .. | autoDeclared .. | slotAllocated .. | lowered .. =>
    .trace

def text : Event → String
  | checkingFunction f => "checking function `" ++ f ++ "`"
  | checkingEntry f => "checking entry function `" ++ f ++ "`"
  | storageSettled n => "storage settled after " ++ toString n ++ " pass(es)"
  | storageChanged s t => "storage of `" ++ s ++ "` is now " ++ t.name
  | autoDeclared n t _ => "auto-declaring `" ++ n ++ "` as " ++ t.name
  | resultPinned f t => "pinning result of `" ++ f ++ "` to " ++ t.name
  | conversionDiffers d a =>
    "conversion declares source type " ++ d.name ++ " but operand is " ++ a.name
  | lowering f => "emitting function `" ++ f ++ "`"
  | slotAllocated i n t => "slot " ++ toString i ++ " for `" ++ n ++ "` (" ++ t.name ++ ")"
  | lowered f s i =>
    "`" ++ f ++ "`: " ++ toString s ++ " slot(s), " ++ toString i ++ " instruction(s)"

end Event
end Numlet
