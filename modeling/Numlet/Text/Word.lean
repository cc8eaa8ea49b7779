/-!
Words: an ASCII letter or underscore, then letters, digits and underscores.
-/
namespace Numlet.Text

def isWordStart (c : Char) : Bool := c.isAlpha || c == '_'

def isWordChar (c : Char) : Bool := c.isAlphanum || c == '_'

/-- Whether a name could be spelled as a word in a source. -/
def isWord (name : String) : Bool :=
  match name.toList with
  | [] => false
  | c :: cs => isWordStart c && cs.all isWordChar

end Numlet.Text
