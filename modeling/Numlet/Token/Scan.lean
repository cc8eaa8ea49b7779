import Numlet.Diagnostic
import Numlet.Text.Bytes
import Numlet.Token.Pattern

/-!
Splitting a source into tokens, from the front, with the byte offset of each. The list ends with the
mark for the end of the text.
-/
namespace Numlet

/-- The tokens of `cs`, which starts at `offset`. A character that no pattern takes is a fault. -/
def scan (file : String) (offset : Nat) : List Char → Except Diagnostic (List Token)
  | [] => .ok [.ending ⟨Position.wrap offset, file⟩]
  | c :: cs =>
    match _h : Pattern.first? (c :: cs) with
    | none => .error ⟨.unrecognisedToken c.toString, ⟨Position.wrap offset, file⟩⟩
    | some (pattern, taken, rest) =>
      let length := Text.byteLength taken
      let text := String.ofList taken
      match scan file (offset + length) rest with
      | .error d => .error d
      | .ok tokens =>
        match pattern.kind? text with
        | none => .ok tokens
        | some kind => .ok (⟨kind, text, .ofLength file offset length⟩ :: tokens)
termination_by cs => cs.length
decreasing_by exact Pattern.first?_length_lt _h

/-- A source without a file is what someone typed. -/
def unnamedFile : String := "shell"

/-- The tokens of a source. -/
def tokenize (source file : String) : Except Diagnostic (List Token) := scan file 0 source.toList

end Numlet
