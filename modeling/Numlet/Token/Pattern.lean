import Numlet.Token
import Numlet.Text.Blank
import Numlet.Text.Word

/-!
What a token, or a stretch that is skipped, looks like. Each pattern takes as much from the front of a
text as it can; the first pattern of `patterns` that takes anything decides.
-/
namespace Numlet

inductive Pattern
  | word
  | number
  | blanks
  | comment
  | sign (kind : Kind) (text : String)
deriving DecidableEq, Repr

namespace Pattern

/-- Longer signs stand before those that begin them. -/
def signs : List (Kind × String) :=
  [(.openCurly, "\x7b"), (.closeCurly, "\x7d"), (.openParen, "("), (.closeParen, ")"),
    (.equals, "=="), (.notEquals, "!="), (.not, "!"), (.assignment, "="), (.lessEquals, "<="),
    (.less, "<"), (.greaterEquals, ">="), (.greater, ">"), (.or, "||"), (.and, "&&"),
    (.semicolon, ";"), (.colon, ":"), (.comma, ","), (.plusPlus, "++"), (.arrow, "->"),
    (.minusMinus, "--"), (.plusEquals, "+="), (.minusEquals, "-="), (.starEquals, "*="),
    (.slashEquals, "/="), (.plus, "+"), (.dash, "-"), (.slash, "/"), (.star, "*"), (.percent, "%")]

def patterns : List Pattern :=
  [word, number, blanks, comment] ++ signs.map fun s => sign s.1 s.2

/-- The text after `front`, if it starts so. -/
def after? : List Char → List Char → Option (List Char)
  | [], cs => some cs
  | _ :: _, [] => none
  | f :: front, c :: cs => if f = c then after? front cs else none

/-- Digits, and if a point with digits follows, these too. -/
def takeNumber (cs : List Char) : List Char × List Char :=
  let whole := cs.takeWhile Char.isDigit
  match cs.dropWhile Char.isDigit with
  | '.' :: d :: rest =>
    if d.isDigit then
      (whole ++ '.' :: d :: rest.takeWhile Char.isDigit, rest.dropWhile Char.isDigit)
    else (whole, '.' :: d :: rest)
  | rest => (whole, rest)

/-- Splits `cs` into what the pattern takes and the rest. -/
def take? : Pattern → List Char → Option (List Char × List Char)
  | word, cs =>
    if cs.head?.any Text.isWordStart then
      some (cs.takeWhile Text.isWordChar, cs.dropWhile Text.isWordChar)
    else none
  | number, cs => if cs.head?.any Char.isDigit then some (takeNumber cs) else none
  | blanks, cs =>
    if cs.head?.any Text.isBlank then
      some (cs.takeWhile Text.isBlank, cs.dropWhile Text.isBlank)
    else none
  | comment, cs =>
    match cs with
    | '/' :: '/' :: rest =>
      some ('/' :: '/' :: rest.takeWhile (· != '\n'), rest.dropWhile (· != '\n'))
    | _ => none
  | sign _ text, cs => (after? text.toList cs).map (text.toList, ·)

/-- The first pattern that takes anything, with what it takes and the rest. -/
def first? (cs : List Char) : Option (Pattern × List Char × List Char) :=
  patterns.findSome? fun p => (p.take? cs).map (p, ·)

/-- The kind of token that a taken text makes; blanks and comments make none. -/
def kind? : Pattern → String → Option Kind
  | word, text => some (Kind.ofWord text)
  | number, _ => some .number
  | blanks, _ => none
  | comment, _ => none
  | sign kind _, _ => some kind

theorem after?_append {front cs rest : List Char} (h : after? front cs = some rest) :
    front ++ rest = cs := by
  induction front generalizing cs with
  | nil =>
    cases h
    rfl
  | cons f front ih =>
    cases cs with
    | nil => cases h
    | cons c cs =>
      simp only [after?] at h
      split at h
      · next hfc => rw [hfc, List.cons_append, ih h]
      · cases h

theorem takeNumber_append (cs : List Char) : (takeNumber cs).1 ++ (takeNumber cs).2 = cs := by
  unfold takeNumber
  have h := List.takeWhile_append_dropWhile (p := Char.isDigit) (l := cs)
  split
  · next d rest heq =>
    split
    · simp only [List.append_assoc, List.cons_append, List.takeWhile_append_dropWhile]
      rw [← heq, h]
    · rw [← heq, h]
  · exact h

/-- Nothing is lost: what is taken and the rest make up the text. -/
theorem take?_append {p : Pattern} {cs taken rest : List Char}
    (h : p.take? cs = some (taken, rest)) : taken ++ rest = cs := by
  cases p with
  | word | blanks =>
    simp only [take?] at h
    split at h
    · cases h
      exact List.takeWhile_append_dropWhile
    · cases h
  | number =>
    simp only [take?] at h
    split at h
    · have h' := takeNumber_append cs
      rw [Option.some.inj h] at h'
      exact h'
    · cases h
  | comment =>
    simp only [take?] at h
    split at h
    · cases h
      simp [List.takeWhile_append_dropWhile]
    · cases h
  | sign kind text =>
    simp only [take?, Option.map_eq_some_iff] at h
    obtain ⟨r, hr, h⟩ := h
    cases h
    exact after?_append hr

/-- A sign has at least one character. -/
def isProper : Pattern → Bool
  | sign _ text => !text.toList.isEmpty
  | _ => true

theorem isProper_of_mem : ∀ p ∈ patterns, p.isProper = true := by decide

theorem takeWhile_ne_nil {q : Char → Bool} {cs : List Char} (h : cs.head?.any q = true) :
    cs.takeWhile q ≠ [] := by
  cases cs with
  | nil => simp at h
  | cons c cs => simp_all

theorem isWordChar_of_isWordStart {c : Char} (h : Text.isWordStart c = true) :
    Text.isWordChar c = true := by
  simp only [Text.isWordStart, Text.isWordChar, Char.isAlphanum, Bool.or_eq_true] at *
  exact h.imp_left Or.inl

/-- A pattern takes at least one character. -/
theorem take?_ne_nil {p : Pattern} (hp : p ∈ patterns) {cs taken rest : List Char}
    (h : p.take? cs = some (taken, rest)) : taken ≠ [] := by
  cases p with
  | word =>
    simp only [take?] at h
    split at h
    · next hc =>
      cases h
      apply takeWhile_ne_nil
      cases cs with
      | nil => simp at hc
      | cons c cs => exact isWordChar_of_isWordStart hc
    · cases h
  | blanks =>
    simp only [take?] at h
    split at h
    · next hc =>
      cases h
      exact takeWhile_ne_nil hc
    · cases h
  | number =>
    simp only [take?] at h
    split at h
    · next hc =>
      have hw := takeWhile_ne_nil hc
      have ht : (takeNumber cs).1 = taken := by rw [Option.some.inj h]
      rw [← ht]
      unfold takeNumber
      split
      · split <;> simp [hw]
      · exact hw
    · cases h
  | comment =>
    simp only [take?] at h
    split at h
    · cases h
      simp
    · cases h
  | sign kind text =>
    simp only [take?, Option.map_eq_some_iff] at h
    obtain ⟨r, hr, h⟩ := h
    cases h
    have hs := isProper_of_mem _ hp
    intro hnil
    simp [isProper, hnil] at hs

/-- What follows a token is shorter than the text it was taken from. -/
theorem first?_length_lt {cs taken rest : List Char} {p : Pattern}
    (h : first? cs = some (p, taken, rest)) : rest.length < cs.length := by
  obtain ⟨q, hq, h⟩ := List.exists_of_findSome?_eq_some h
  simp only [Option.map_eq_some_iff] at h
  obtain ⟨⟨t, r⟩, ht, h⟩ := h
  cases h
  have ha := take?_append ht
  have hn := List.length_pos_iff.mpr (take?_ne_nil hq ht)
  rw [← ha, List.length_append]
  omega

end Pattern
end Numlet
