import Numlet.Text.Bytes

/-!
Lines of a source. A line keeps the newline that ends it; `lineAt` finds the line that holds an offset.
-/
namespace Numlet

/-- A line, its number counted from one, and an offset inside it. -/
structure Line where
  number : Nat
  text : List Char
  column : Nat
deriving DecidableEq, Repr

def splitLines : List Char → List (List Char)
  | [] => []
  | c :: cs =>
    if c = '\n' then [c] :: splitLines cs
    else match splitLines cs with
      | [] => [[c]]
      | line :: lines => (c :: line) :: lines

/-- Walks the lines from number `n` on. The end of the last line still belongs to it. -/
def locate (offset : Nat) (n : Nat) : List (List Char) → Option Line
  | [] => none
  | [line] => if offset ≤ Text.byteLength line then some ⟨n, line, offset⟩ else none
  | line :: next :: lines =>
    if offset < Text.byteLength line then some ⟨n, line, offset⟩
    else locate (offset - Text.byteLength line) (n + 1) (next :: lines)

/-- The line that holds the byte at `offset`; the end of the text is on its last line. -/
def lineAt (content : String) (offset : Nat) : Option Line :=
  locate offset 1 (splitLines content.toList)

end Numlet
