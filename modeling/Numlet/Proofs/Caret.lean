import Numlet.Compile
import Numlet.Diagnostic.Render
import Numlet.Proofs.Outcome
import Numlet.Proofs.SourceLines

/-!
Where the caret of a rendered diagnostic stands. The marker under the excerpt counts bytes and the excerpt
shows characters, so the caret is under the character that it is about exactly if what the excerpt shows
before this character is ASCII.
-/
namespace Numlet

/-- The last two lines of a text, without the newlines that end them. -/
def LastLines (text upper lower : List Char) : Prop :=
  ∃ top, text = top ++ (upper ++ '\n' :: (lower ++ ['\n'])) ∧
    (top = [] ∨ top.getLast? = some '\n') ∧ '\n' ∉ upper ∧ '\n' ∉ lower

namespace Text

variable {cs left right : List Char} {c : Char}

theorem byteLength_cons (c : Char) (cs : List Char) :
    byteLength (c :: cs) = c.utf8Size + byteLength cs := rfl

theorem length_le_byteLength (cs : List Char) : cs.length ≤ byteLength cs := by
  induction cs with
  | nil => exact Nat.le_refl 0
  | cons c cs ih =>
    have hc := c.utf8Size_pos
    rw [List.length_cons, byteLength_cons]
    omega

/-- A text has as many bytes as characters exactly if it is ASCII. -/
theorem byteLength_eq_length_iff : byteLength cs = cs.length ↔ ∀ c ∈ cs, c.val ≤ 127 := by
  induction cs with
  | nil => simp [byteLength]
  | cons c cs ih =>
    have hc := c.utf8Size_pos
    have hle := length_le_byteLength cs
    rw [byteLength_cons, List.length_cons, List.forall_mem_cons, ← ih, ← Char.utf8Size_eq_one_iff]
    omega

/-- Of two ways to cut a text, the first one cuts no later. -/
theorem split_of_le {a b x y : List Char} (h : a ++ x = b ++ y) (hle : byteLength a ≤ byteLength b) :
    ∃ mid, b = a ++ mid ∧ x = mid ++ y := by
  obtain ⟨mid, hb, hx⟩ | ⟨mid, ha, hy⟩ := List.append_eq_append_iff.mp h
  · exact ⟨mid, hb, hx⟩
  · have hmid : mid = [] := by
      have hlength := length_le_byteLength mid
      rw [ha, byteLength_append] at hle
      exact List.eq_nil_of_length_eq_zero (by omega)
    subst hmid
    exact ⟨[], by simp [ha], by simp [hy]⟩

theorem takeWhile_append_cons {p : Char → Bool} (hc : p c = false) :
    (left ++ c :: right).takeWhile p = left.takeWhile p := by
  induction left with
  | nil => simp [hc]
  | cons x left ih =>
    rw [List.cons_append, List.takeWhile_cons, List.takeWhile_cons, ih]

theorem dropWhile_append_cons {p : Char → Bool} (hc : p c = false) :
    (left ++ c :: right).dropWhile p = left.dropWhile p ++ c :: right := by
  induction left with
  | nil => simp [hc]
  | cons x left ih =>
    rw [List.cons_append, List.dropWhile_cons, List.dropWhile_cons, ih]
    split <;> rfl

theorem trimEnd_append_cons (hc : isBlank c = false) :
    trimEnd (left ++ c :: right) = left ++ c :: trimEnd right := by
  unfold trimEnd
  rw [List.reverse_append, List.reverse_cons, List.append_assoc, List.singleton_append,
    dropWhile_append_cons hc]
  simp

theorem ne_of_not_blank {b : Char} (hc : isBlank c = false) (hb : isBlank b = true) : c ≠ b := by
  rintro rfl
  rw [hb] at hc
  cases hc

/-- What is left of a text without its leading spaces does not start with a space. -/
theorem head?_dropWhile_spaces (hc : c ≠ ' ') : (left.dropWhile (· == ' ') ++ [c]).head? ≠ some ' ' := by
  have hhead := List.head?_dropWhile_not (· == ' ') left
  cases hleft : left.dropWhile (· == ' ') with
  | nil => simpa using hc
  | cons x rest =>
    rw [hleft] at hhead
    simpa using hhead

theorem eq_space_of_mem_takeWhile (h : c ∈ cs.takeWhile (· == ' ')) : c = ' ' := by
  simpa using List.all_eq_true.mp List.all_takeWhile c h

/-- Leading spaces have one byte each. -/
theorem byteLength_dropWhile_spaces (cs : List Char) :
    byteLength cs - (cs.takeWhile (· == ' ')).length = byteLength (cs.dropWhile (· == ' ')) := by
  have hspaces : byteLength (cs.takeWhile (· == ' ')) = (cs.takeWhile (· == ' ')).length := by
    refine byteLength_eq_length_iff.mpr fun c hc => ?_
    rw [eq_space_of_mem_takeWhile hc]
    decide
  have htotal := congrArg byteLength (List.takeWhile_append_dropWhile (p := (· == ' ')) (l := cs))
  rw [byteLength_append] at htotal
  omega

theorem mem_of_mem_trimEnd (h : c ∈ trimEnd cs) : c ∈ cs :=
  List.mem_reverse.mp ((List.dropWhile_sublist _).mem (List.mem_reverse.mp h))

/-- Trimming takes the newline off the end of a line. -/
theorem newline_not_mem_trimEnd (h : '\n' ∉ cs.dropLast) : '\n' ∉ trimEnd cs := by
  intro hmem
  obtain rfl | ⟨init, last, rfl⟩ := List.eq_nil_or_concat cs
  · cases mem_of_mem_trimEnd hmem
  · rw [List.concat_eq_append, List.dropLast_concat] at h
    by_cases hlast : isBlank last
    · have htrim : trimEnd (init.concat last) = trimEnd init := by simp [trimEnd, hlast]
      exact h (mem_of_mem_trimEnd (htrim ▸ hmem))
    · have hne : last ≠ '\n' := by
        rintro rfl
        exact hlast (by decide)
      have hinit := mem_of_mem_trimEnd hmem
      simp [h, Ne.symm hne] at hinit

end Text

namespace Diagnostic

theorem alignRight_toList (width : Nat) (fill : Char) (text : String) :
    (alignRight width fill text).toList = List.replicate (width - text.length) fill ++ text.toList := by
  simp [alignRight]

/-- What stands before the text of a line in its excerpt. -/
def margin (number : Nat) : List Char := (toString number).toList ++ [' ', '|', ' ']

/-- What stands under the text of a line in its excerpt: a caret after some dashes. -/
def marker (number dashes : Nat) : List Char :=
  List.replicate ((toString number).length + 1) ' ' ++ '|' :: ' ' :: (List.replicate dashes '-' ++ ['^'])

theorem newline_not_mem_margin (number : Nat) : '\n' ∉ margin number := by
  intro h
  simp only [margin, List.mem_append] at h
  obtain h | h := h
  · have hdigit := Nat.isDigit_of_mem_toDigits (by decide) (by decide) (Nat.toList_repr ▸ h)
    revert hdigit
    decide
  · simp at h

theorem newline_not_mem_marker (number dashes : Nat) : '\n' ∉ marker number dashes := by
  simp [marker, List.mem_replicate]

/-- The caret of a marker stands as many columns behind the margin as there are dashes. -/
theorem marker_caret (number dashes : Nat) :
    (marker number dashes).idxOf '^' = (margin number).length + dashes ∧
      (marker number dashes).count '^' = 1 := by
  have hsplit : marker number dashes =
      (List.replicate ((toString number).length + 1) ' ' ++ '|' :: ' ' :: List.replicate dashes '-') ++ ['^'] := by
    simp [marker]
  have hnot : '^' ∉
      List.replicate ((toString number).length + 1) ' ' ++ '|' :: ' ' :: List.replicate dashes '-' := by
    simp [List.mem_replicate]
  rw [hsplit, List.idxOf_append, if_neg hnot, List.count_append, List.count_eq_zero.mpr hnot]
  simp only [margin, List.length_append, List.length_cons, List.length_nil, List.length_replicate,
    String.length_toList, List.idxOf_cons_self]
  exact ⟨by omega, by simp⟩

theorem excerpt_toList (line : Line) : (excerpt line).toList =
    (alignRight ((toString line.number).length + 2) ' ' "|").toList ++ '\n' ::
      (margin line.number ++ Text.trimEnd (line.text.dropWhile (· == ' ')) ++ '\n' ::
        (marker line.number (line.column - (line.text.takeWhile (· == ' ')).length) ++ ['\n'])) := by
  have hbar : "|".length = 1 := by decide
  have hcaret : "^".length = 1 := by decide
  simp [excerpt, alignRight_toList, margin, marker, hbar, hcaret]

theorem render_toList (d : Diagnostic) {source : String} (file : String) {line : Line}
    (h : lineAt source d.position.offset = some line) :
    ∃ top, (d.render source file).toList = top ++ (margin line.number ++
        Text.trimEnd (line.text.dropWhile (· == ' ')) ++ '\n' ::
          (marker line.number (line.column - (line.text.takeWhile (· == ' ')).length) ++ ['\n'])) ∧
      top.getLast? = some '\n' := by
  refine ⟨(d.heading ++ "-> " ++ file ++ "\n" ++
    alignRight ((toString line.number).length + 2) ' ' "|").toList ++ ['\n'], ?_, List.getLast?_concat⟩
  rw [render, h]
  simp [excerpt_toList]

end Diagnostic

/-- A line has no newline before its last character. -/
theorem IsLine.newline_not_mem {above below inner right : List Char} {c : Char}
    (h : IsLine above (inner ++ c :: right) below) : '\n' ∉ inner ∧ '\n' ∉ right.dropLast := by
  have hinside := h.inside
  rw [List.dropLast_append_of_ne_nil (List.cons_ne_nil _ _)] at hinside
  cases right with
  | nil => simpa using hinside
  | cons x right => simp_all

/-- The character at an offset stands in the line of the offset, as many bytes behind its start as the column
says. -/
theorem Line.StandsIn.split {line : Line} {text above below before after : List Char} {c : Char}
    (h : line.StandsIn text above below) (htext : text = before ++ c :: after)
    (hcolumn : Text.byteLength above + line.column = Text.byteLength before)
    (hlt : line.column < Text.byteLength line.text) :
    ∃ inner right, before = above ++ inner ∧ line.text = inner ++ c :: right ∧
      line.column = Text.byteLength inner := by
  obtain ⟨inner, rfl, hrest⟩ := Text.split_of_le (h.text_eq.symm.trans htext) (by omega)
  rw [Text.byteLength_append] at hcolumn
  obtain ⟨tail, hline, htail⟩ := Text.split_of_le hrest.symm (by omega)
  cases tail with
  | nil =>
    rw [hline, List.append_nil] at hlt
    omega
  | cons x right =>
    obtain ⟨rfl, -⟩ := List.cons.inj htail
    exact ⟨inner, right, rfl, hline, by omega⟩

/-- In the excerpt of a diagnostic about a character that is not blank, the line of the character is shown
without its leading spaces and trailing blanks, and the caret under it stands as far behind the margin as there
are bytes before the character. So it is in the column of the character exactly if the characters shown before
it are ASCII. -/
theorem caret_under_character_iff_ascii {source : String} {before after : List Char} {c : Char}
    (d : Diagnostic) (file : String) (hsource : source.toList = before ++ c :: after)
    (hblank : Text.isBlank c = false) (hplace : d.position.offset = Text.byteLength before) :
    ∃ (line : Line) (above below spaces left right caretLine : List Char),
      line.StandsIn source.toList above below ∧ before = above ++ (spaces ++ left) ∧
      line.text = spaces ++ (left ++ c :: right) ∧ (∀ x ∈ spaces, x = ' ') ∧
      (left ++ [c]).head? ≠ some ' ' ∧
      LastLines (d.render source file).toList
        (Diagnostic.margin line.number ++ (left ++ c :: Text.trimEnd right)) caretLine ∧
      caretLine.count '^' = 1 ∧
      caretLine.idxOf '^' = (Diagnostic.margin line.number).length + Text.byteLength left ∧
      (caretLine.idxOf '^' = (Diagnostic.margin line.number ++ left).length ↔ ∀ x ∈ left, x.val ≤ 127) := by
  have hlt : d.position.offset < Text.byteLength source.toList := by
    have hc := c.utf8Size_pos
    rw [hsource, hplace, Text.byteLength_append, Text.byteLength_cons]
    omega
  obtain ⟨line, above, below, hfound, hstands, hcolumn, hinside⟩ := lineAt_of_lt hlt
  obtain ⟨inner, right, rfl, htext, hinner⟩ := hstands.split hsource (hcolumn.trans hplace) hinside
  have hspace : c ≠ ' ' := Text.ne_of_not_blank hblank (by decide)
  have hstop : (c == ' ') = false := beq_eq_false_iff_ne.mpr hspace
  obtain ⟨hinnerLine, hrightLine⟩ := (htext ▸ hstands.isLine).newline_not_mem
  obtain ⟨top, hrender, htop⟩ := d.render_toList file hfound
  rw [htext, Text.takeWhile_append_cons (p := (· == ' ')) hstop,
    Text.dropWhile_append_cons (p := (· == ' ')) hstop, Text.trimEnd_append_cons hblank, hinner,
    Text.byteLength_dropWhile_spaces] at hrender
  obtain ⟨hcaret, hcount⟩ :=
    Diagnostic.marker_caret line.number (Text.byteLength (inner.dropWhile (· == ' ')))
  refine ⟨line, above, below, inner.takeWhile (· == ' '), inner.dropWhile (· == ' '), right, _, hstands, ?_, ?_,
    ?_, ?_, ⟨top, hrender, .inr htop, ?_, Diagnostic.newline_not_mem_marker _ _⟩, hcount, hcaret, ?_⟩
  · rw [List.takeWhile_append_dropWhile]
  · rw [htext, ← List.append_assoc, List.takeWhile_append_dropWhile]
  · exact fun x => Text.eq_space_of_mem_takeWhile
  · exact Text.head?_dropWhile_spaces hspace
  · have hleft : '\n' ∉ inner.dropWhile (· == ' ') :=
      fun hmem => hinnerLine ((List.dropWhile_sublist _).mem hmem)
    simp only [List.mem_append, List.mem_cons, not_or]
    exact ⟨Diagnostic.newline_not_mem_margin _, hleft, (Text.ne_of_not_blank hblank (by decide)).symm,
      Text.newline_not_mem_trimEnd hrightLine⟩
  · rw [hcaret, List.length_append, Nat.add_left_cancel_iff, Text.byteLength_eq_length_iff]

/-- On an indented line that is ASCII up to the place, with characters of several bytes behind it. -/
theorem caret_under_character_on_indented_line :
    "x;\n  a = @é\u3000".toList = "x;\n  a = ".toList ++ '@' :: ['é', '\u3000'] ∧
    Text.isBlank '@' = false ∧ Text.byteLength "x;\n  a = ".toList = 9 ∧
    ∃ (line : Line) (above spaces left right caretLine : List Char),
      "x;\n  a = ".toList = above ++ (spaces ++ left) ∧ line.text = spaces ++ (left ++ '@' :: right) ∧
      LastLines (Diagnostic.render ⟨.unrecognisedToken "@", ⟨9, "f"⟩⟩ "x;\n  a = @é\u3000" "f").toList
        (Diagnostic.margin line.number ++ (left ++ '@' :: Text.trimEnd right)) caretLine ∧
      caretLine.idxOf '^' = (Diagnostic.margin line.number ++ left).length := by
  have hsource : "x;\n  a = @é\u3000".toList = "x;\n  a = ".toList ++ '@' :: ['é', '\u3000'] := by decide
  have hascii : ("x;\n  a = ".toList.all fun x => x.val ≤ 127) = true := by decide
  obtain ⟨line, above, below, spaces, left, right, caretLine, -, hbefore, htext, -, -, hlines, -, -, hcolumn⟩ :=
    caret_under_character_iff_ascii ⟨.unrecognisedToken "@", ⟨9, "f"⟩⟩ "f" hsource (by decide) (by decide)
  refine ⟨hsource, by decide, by decide, line, above, spaces, left, right, caretLine, hbefore, htext, hlines, ?_⟩
  refine hcolumn.mpr fun x hx => ?_
  have hmem : x ∈ "x;\n  a = ".toList := by
    rw [hbefore]
    simp [hx]
  exact of_decide_eq_true (List.all_eq_true.mp hascii x hmem)

/-- After a blank of two bytes the caret is one column behind the character. -/
theorem caret_behind_character_after_wide_blank :
    compileSource "print\u00a0y;" "f" {} = .error ⟨.undeclaredName "y", ⟨7, "f"⟩⟩ ∧
    "print\u00a0y;".toList = "print\u00a0".toList ++ 'y' :: [';'] ∧ Text.isBlank 'y' = false ∧
    Text.byteLength "print\u00a0".toList = 7 ∧
    LastLines (Diagnostic.render ⟨.undeclaredName "y", ⟨7, "f"⟩⟩ "print\u00a0y;" "f").toList
      "1 | print\u00a0y;".toList "  | -------^".toList ∧
    "1 | print\u00a0y;".toList.idxOf 'y' = 10 ∧ "  | -------^".toList.idxOf '^' = 11 := by
  refine ⟨eq_error_of_decide (by decide +kernel), by decide, by decide, by decide, ?_, by decide, by decide⟩
  refine ⟨"Error: UndeclaredName (`y` is not declared in this scope)\n-> f\n  |\n".toList, ?_, ?_, ?_, ?_⟩
  · decide +kernel
  · decide +kernel
  · decide
  · decide

end Numlet
