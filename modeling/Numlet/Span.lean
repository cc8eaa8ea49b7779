/-!
Places in a source text. An offset counts bytes of UTF-8 and is always read together with the name of
the text that it counts in.
-/
namespace Numlet

structure Position where
  offset : Nat
  file : String
deriving DecidableEq, Repr, Inhabited

/-- The place of a diagnostic that belongs to no text. -/
def Position.unknown : Position := ⟨0, "<null>"⟩

/-- Offsets are kept in 32 bits. -/
def Position.wrap (offset : Nat) : Nat := offset % 4294967296

/-- A stretch of a text, from its first byte to just past its last. -/
structure Span where
  start : Position
  stop : Position
deriving DecidableEq, Repr, Inhabited

/-- The stretch of `length` bytes from `offset` on. -/
def Span.ofLength (file : String) (offset length : Nat) : Span :=
  ⟨⟨Position.wrap offset, file⟩, ⟨Position.wrap (offset + length), file⟩⟩

/-- The empty stretch at a place. -/
def Span.empty (place : Position) : Span := ⟨place, place⟩

end Numlet
