import Numlet.Span
import Numlet.Text.Bytes

/-!
A reading place in a source that moves by bytes. It may stand past the end or inside a character; then
there is nothing to read there.
-/
namespace Numlet

structure Reader where
  source : String
  file : String
  offset : Nat := 0
deriving Repr

namespace Reader

def advance (r : Reader) (n : Nat) : Reader := { r with offset := r.offset + n }

/-- The stretch of the next `length` bytes. -/
def span (r : Reader) (length : Nat) : Span := .ofLength r.file r.offset length

/-- The text from the reading place on, if it starts a character or is the end. -/
def rest? (r : Reader) : Option (List Char) := Text.dropBytes r.offset r.source.toList

def atEnd (r : Reader) : Bool := Text.byteLength r.source.toList ≤ r.offset

end Reader
end Numlet
