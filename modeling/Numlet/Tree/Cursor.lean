import Numlet.Diagnostic
import Numlet.Token

/-!
A cursor on a list of tokens. The mark at the end is kept apart from the tokens before it, so a cursor
always has a current token, and one that is not the end mark can be passed. A `Reading` moves a cursor
and may fail; a failure keeps the place where the cursor stopped.
-/
namespace Numlet

structure Cursor where
  file : String
  /-- The token just passed. -/
  previous : Option Token
  /-- The tokens from the current one on, without the end mark. -/
  ahead : List Token
  endValue : String
  endSpan : Span
  /-- How many tokens are ahead. -/
  remaining : Nat := ahead.length
  remaining_eq : remaining = ahead.length := by rfl

namespace Cursor

/-- The cursor on the first token. A list without an end mark gets one. -/
def ofTokens (file : String) (tokens : List Token) : Cursor :=
  match tokens.getLast? with
  | none =>
    { file := file, previous := none, ahead := [], endValue := "EOF", endSpan := .empty ⟨0, file⟩ }
  | some last =>
    if last.kind = .eof then
      { file := file, previous := none, ahead := tokens.dropLast
        endValue := last.value, endSpan := last.span }
    else
      { file := file, previous := none, ahead := tokens
        endValue := "EOF", endSpan := .empty last.span.stop }

def current (c : Cursor) : Token := c.ahead.head?.getD ⟨.eof, c.endValue, c.endSpan⟩

def kind (c : Cursor) : Kind := c.current.kind

/-- Moves past the current token. The end mark cannot be passed. -/
def advance (c : Cursor) : Cursor :=
  match h : c.ahead with
  | [] => c
  | t :: rest =>
    { c with
      previous := some t, ahead := rest, remaining := c.remaining - 1
      remaining_eq := by simp [c.remaining_eq, h] }

def position (c : Cursor) : Position := c.current.span.start

/-- Where the token just passed ends. -/
def previousEnd (c : Cursor) : Position :=
  match c.previous with
  | none => ⟨0, c.file⟩
  | some t => t.span.stop

/-- The current token stands where it should not. -/
def refusal (c : Cursor) : Diagnostic := ⟨.unexpectedToken c.current.value, c.position⟩

/-- The same, with what was expected. -/
def complaint (c : Cursor) (message : String) : Diagnostic :=
  ⟨.unexpectedTokenDetailed c.current.value message, c.position⟩

end Cursor

abbrev Reading := EStateM Diagnostic Cursor

namespace Reading

def kind : Reading Kind := return (← get).kind

/-- Takes the current token. -/
def take : Reading Token := modifyGet fun c => (c.current, c.advance)

/-- Refuses the current token. -/
def refuse {α : Type} : Reading α := fun c => .error c.refusal c

/-- Refuses the current token and tells what was expected. -/
def complain {α : Type} (message : String) : Reading α := fun c => .error (c.complaint message) c

/-- Takes the current token if it is of the given kind. -/
def expect (kind : Kind) : Reading Token := fun c =>
  if c.kind = kind then take c else refuse c

/-- Takes the current token if it is of the given kind, or tells what was expected. -/
def expectOr (kind : Kind) (message : String) : Reading Token := fun c =>
  if c.kind = kind then take c else complain message c

/-- Passes the current token if it is of the given kind and tells whether it was. -/
def passed (kind : Kind) : Reading Bool := fun c =>
  if c.kind = kind then .ok true c.advance else .ok false c

/-- Where the token just passed ends. -/
def lastEnd : Reading Position := return (← get).previousEnd

/-- Reads what `read` reads unless the current token is of the given kind. -/
def unlessAt {α : Type} (kind : Kind) (read : Reading α) : Reading (Option α) := fun c =>
  if c.kind = kind then .ok none c else (some <$> read) c

/-- Reads items until the current token is of the given kind. Each item takes at least one token. -/
def many {α : Type} (stop : Kind) (item : Reading α) (c : Cursor) :
    EStateM.Result Diagnostic Cursor (List α) :=
  if c.kind = stop then .ok [] c
  else match item c with
    | .error d c' => .error d c'
    | .ok a c' =>
      if c'.remaining < c.remaining then
        match many stop item c' with
        | .error d c'' => .error d c''
        | .ok as c'' => .ok (a :: as) c''
      else refuse c'
termination_by c.remaining

/-- The items of a list in parentheses, up to the closing one. A comma may follow the last item. -/
def commaList {α : Type} (item : Reading α) (message : String) : Reading (List α) :=
  many .closeParen do
    let a ← item
    let comma ← passed .comma
    if !comma && (← kind) ≠ .closeParen then complain message
    return a

end Reading
end Numlet
