import Numlet.Diagnostic
import Numlet.Span.Line
import Numlet.Text.Blank

/-!
A diagnostic shown against its source: the fault, the name of the text, and the line with a caret under
the place.
-/
namespace Numlet.Diagnostic

/-- The text moved to the right end of `width` columns. -/
def alignRight (width : Nat) (fill : Char) (text : String) : String :=
  String.ofList (List.replicate (width - text.length) fill) ++ text

/-- The line with the place marked. Leading spaces are left out of the line and of the marker. -/
def excerpt (line : Line) : String :=
  let number := toString line.number
  let bar := alignRight (number.length + 2) ' ' "|"
  let shown := Text.trimEnd (line.text.dropWhile (· == ' '))
  let indent := (line.text.takeWhile (· == ' ')).length
  bar ++ "\n" ++
    number ++ " | " ++ String.ofList shown ++ "\n" ++
    bar ++ " " ++ alignRight (line.column - indent + 1) '-' "^" ++ "\n"

def heading (d : Diagnostic) : String :=
  match d.fault.tip? with
  | none => "Error: " ++ d.fault.name ++ "\n"
  | some tip => "Error: " ++ d.fault.name ++ " (" ++ tip ++ ")\n"

/-- Without a line to show, the message of the fault stands in its place. -/
def render (d : Diagnostic) (source file : String) : String :=
  d.heading ++ "-> " ++ file ++ "\n" ++
    match lineAt source d.position.offset with
    | none => "   " ++ d.fault.message ++ "\n"
    | some line => excerpt line

end Numlet.Diagnostic
