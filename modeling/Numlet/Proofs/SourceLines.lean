import Numlet.Proofs.Token.Standing
import Numlet.Span.Line

/-!
Lines of a source. Splitting a text loses nothing of it and cuts it after every newline, so the line that
holds an offset is the whole stretch between two cuts.
-/
namespace Numlet

/-- Lines in a row. Each ends with its only newline, and the last one may lack it. -/
inductive Lines : List (List Char) → Prop
  | none : Lines []
  | unended {line : List Char} (hne : line ≠ []) (h : '\n' ∉ line) : Lines [line]
  | ended {line : List Char} {lines : List (List Char)} (h : '\n' ∉ line) (hlines : Lines lines) :
      Lines ((line ++ ['\n']) :: lines)

/-- What stands before and after a line does not belong to it: it starts with the text or after a newline, has
no newline inside, and ends with one or with the text. -/
structure IsLine (before line after : List Char) : Prop where
  starts : before = [] ∨ before.getLast? = some '\n'
  inside : '\n' ∉ line.dropLast
  ends : after = [] ∨ line.getLast? = some '\n'

theorem splitLines_lines (cs : List Char) : Lines (splitLines cs) := by
  induction cs with
  | nil => exact .none
  | cons c cs ih =>
    rw [splitLines]
    split
    · next hc =>
      rw [hc]
      exact @Lines.ended [] _ List.not_mem_nil ih
    · next hc =>
      -- Any other character goes to the front of the line after it.
      have hfirst {line : List Char} (h : '\n' ∉ line) : '\n' ∉ c :: line := by
        simp [h, Ne.symm hc]
      cases hlines : splitLines cs with
      | nil => exact .unended (List.cons_ne_nil _ _) (hfirst List.not_mem_nil)
      | cons line lines =>
        rw [hlines] at ih
        cases ih with
        | unended hne h => exact .unended (List.cons_ne_nil _ _) (hfirst h)
        | @ended line _ h hrest => exact @Lines.ended (c :: line) _ (hfirst h) hrest

theorem splitLines_flatten (cs : List Char) : (splitLines cs).flatten = cs := by
  induction cs with
  | nil => rfl
  | cons c cs ih =>
    rw [splitLines]
    split
    · rw [List.flatten_cons, ih, List.singleton_append]
    · cases hlines : splitLines cs with
      | nil =>
        rw [hlines] at ih
        rw [← ih]
        rfl
      | cons line lines =>
        rw [hlines] at ih
        rw [List.flatten_cons, List.cons_append, ← List.flatten_cons, ih]

namespace Lines

variable {before after : List (List Char)} {line : List Char}

theorem ne_nil {lines : List (List Char)} (h : Lines lines) (hmem : line ∈ lines) : line ≠ [] := by
  induction h with
  | none => cases hmem
  | unended hne _ =>
    rw [List.mem_singleton.mp hmem]
    exact hne
  | ended _ _ ih =>
    obtain rfl | hmem := List.mem_cons.mp hmem
    · simp
    · exact ih hmem

/-- The number of lines before a line is the number of newlines before it. -/
theorem isLine (h : Lines (before ++ line :: after)) :
    IsLine before.flatten line after.flatten ∧ before.flatten.count '\n' = before.length := by
  induction before with
  | nil =>
    refine ⟨?_, rfl⟩
    cases h with
    | unended _ h => exact ⟨.inl rfl, fun hmem => h (List.dropLast_subset _ hmem), .inl rfl⟩
    | ended h _ => exact ⟨.inl rfl, by simpa using h, .inr (by simp)⟩
  | cons first before ih =>
    rw [List.cons_append] at h
    generalize hrest : before ++ line :: after = rest at h
    cases h with
    | unended => simp at hrest
    | @ended first _ h hlines =>
      obtain ⟨⟨hstarts, hinside, hends⟩, hcount⟩ := ih (hrest ▸ hlines)
      refine ⟨⟨.inr ?_, hinside, hends⟩, ?_⟩
      · rw [List.flatten_cons, List.append_assoc, List.getLast?_append]
        obtain hnil | hlast := hstarts
        · rw [hnil]
          rfl
        · rw [List.singleton_append, List.getLast?_cons, hlast]
          rfl
      · rw [List.flatten_cons, List.count_append, hcount, List.count_append, List.count_eq_zero.mpr h]
        simp
        omega

end Lines

/-- An offset up to the end of some lines lies on one of them, and at its end only if it is the last one. -/
theorem locate_finds {lines : List (List Char)} {offset : Nat} (n : Nat) (hne : lines ≠ [])
    (h : offset ≤ Text.byteLength lines.flatten) :
    ∃ before line after column, lines = before ++ line :: after ∧
      locate offset n lines = some ⟨n + before.length, line, column⟩ ∧
      Text.byteLength before.flatten + column = offset ∧
      (column < Text.byteLength line ∨ after = [] ∧ column = Text.byteLength line) := by
  fun_induction locate offset n lines with
  | case1 => exact absurd rfl hne
  | case2 offset n line hle =>
    refine ⟨[], line, [], offset, rfl, rfl, Nat.zero_add _, ?_⟩
    obtain hlt | heq := Nat.lt_or_eq_of_le hle
    · exact .inl hlt
    · exact .inr ⟨rfl, heq⟩
  | case3 offset n line hgt =>
    rw [List.flatten_singleton] at h
    exact absurd h hgt
  | case4 offset n line next lines hlt =>
    exact ⟨[], line, next :: lines, offset, rfl, rfl, Nat.zero_add _, .inl hlt⟩
  | case5 offset n line next lines hge ih =>
    rw [List.flatten_cons, Text.byteLength_append] at h
    obtain ⟨before, found, after, column, hlines, hrun, hcolumn, hend⟩ :=
      ih (List.cons_ne_nil _ _) (by omega)
    refine ⟨line :: before, found, after, column, by rw [hlines]; rfl, ?_, ?_, hend⟩
    · rw [hrun, List.length_cons]
      congr 2
      omega
    · rw [List.flatten_cons, Text.byteLength_append]
      omega

theorem locate_past {lines : List (List Char)} {offset : Nat} (n : Nat)
    (h : Text.byteLength lines.flatten < offset) : locate offset n lines = none := by
  fun_induction locate offset n lines with
  | case1 => rfl
  | case2 offset n line hle =>
    rw [List.flatten_singleton] at h
    omega
  | case3 => rfl
  | case4 offset n line next lines hlt =>
    rw [List.flatten_cons, Text.byteLength_append] at h
    omega
  | case5 offset n line next lines hge ih =>
    rw [List.flatten_cons, Text.byteLength_append] at h
    exact ih (by omega)

/-- A line of a text with its number, and the text before and after it. -/
structure Line.StandsIn (text before after : List Char) (line : Line) : Prop where
  text_eq : text = before ++ (line.text ++ after)
  isLine : IsLine before line.text after
  number : line.number = before.count '\n' + 1

theorem lineAt_finds {content : String} {offset : Nat} (hne : content ≠ "")
    (h : offset ≤ Text.byteLength content.toList) :
    ∃ line before after, lineAt content offset = some line ∧ line.StandsIn content.toList before after ∧
      line.text ≠ [] ∧ Text.byteLength before + line.column = offset ∧
      (line.column < Text.byteLength line.text ∨
        after = [] ∧ line.column = Text.byteLength line.text) := by
  have hflat := splitLines_flatten content.toList
  have hlines : splitLines content.toList ≠ [] := by
    intro hnil
    rw [hnil] at hflat
    exact hne (String.toList_eq_nil_iff.mp hflat.symm)
  have hle : offset ≤ Text.byteLength (splitLines content.toList).flatten := by rwa [hflat]
  obtain ⟨before, text, after, column, hsplit, hrun, hcolumn, hend⟩ := locate_finds 1 hlines hle
  have hall := splitLines_lines content.toList
  rw [hsplit] at hall hflat
  obtain ⟨hline, hcount⟩ := hall.isLine
  refine ⟨_, before.flatten, after.flatten, hrun, ⟨?_, hline, ?_⟩, ?_, hcolumn, ?_⟩
  · rw [← hflat, List.flatten_append, List.flatten_cons]
  · rw [hcount, Nat.add_comm]
  · exact hall.ne_nil (by simp)
  · obtain hlt | ⟨rfl, heq⟩ := hend
    · exact .inl hlt
    · exact .inr ⟨rfl, heq⟩

/-- A byte of a text is inside its line. -/
theorem lineAt_of_lt {content : String} {offset : Nat} (h : offset < Text.byteLength content.toList) :
    ∃ line before after, lineAt content offset = some line ∧ line.StandsIn content.toList before after ∧
      Text.byteLength before + line.column = offset ∧ line.column < Text.byteLength line.text := by
  have hne : content ≠ "" := by
    rintro rfl
    cases h
  obtain ⟨line, before, after, hsome, hstands, -, hcolumn, hend⟩ := lineAt_finds hne (Nat.le_of_lt h)
  refine ⟨line, before, after, hsome, hstands, hcolumn, ?_⟩
  obtain hinside | ⟨rfl, hend⟩ := hend
  · exact hinside
  · -- At the end of the last line all bytes of the text are passed.
    rw [hstands.text_eq, Text.byteLength_append, List.append_nil] at h
    omega

theorem lineAt_eq_none_iff {content : String} {offset : Nat} :
    lineAt content offset = none ↔ Text.byteLength content.toList < offset ∨ content = "" := by
  constructor
  · intro hnone
    by_cases hne : content = ""
    · exact .inr hne
    · refine .inl (Nat.lt_of_not_le fun hle => ?_)
      obtain ⟨line, -, -, hsome, -⟩ := lineAt_finds hne hle
      rw [hnone] at hsome
      cases hsome
  · rintro (hlt | rfl)
    · exact locate_past 1 (by rwa [splitLines_flatten])
    · rfl

/-- Every offset in a text has its line: the whole stretch between two newlines that holds the byte at the
offset, counted from one by the newlines before it. Only the end of the text is on a line whose bytes it is
not among, the last one. Past the end, and in an empty text, there is no line. -/
theorem lineAt_locates (content : String) (offset : Nat) :
    (lineAt content offset = none ↔ Text.byteLength content.toList < offset ∨ content = "") ∧
    (offset < Text.byteLength content.toList → ∃ line before after,
      lineAt content offset = some line ∧ line.StandsIn content.toList before after ∧
      Text.byteLength before + line.column = offset ∧ line.column < Text.byteLength line.text) ∧
    (offset = Text.byteLength content.toList → content ≠ "" → ∃ line before,
      lineAt content offset = some line ∧ line.StandsIn content.toList before [] ∧ line.text ≠ [] ∧
      line.column = Text.byteLength line.text) := by
  refine ⟨lineAt_eq_none_iff, lineAt_of_lt, fun heq hne => ?_⟩
  obtain ⟨line, before, after, hsome, hstands, htext, hcolumn, hend⟩ :=
    lineAt_finds hne (Nat.le_of_eq heq)
  obtain hinside | ⟨rfl, hend⟩ := hend
  · rw [hstands.text_eq, Text.byteLength_append, Text.byteLength_append] at heq
    omega
  · exact ⟨line, before, hsome, hstands, htext, hend⟩

/-- A blank line after a character of two bytes, and the end of a text after its last newline. -/
theorem lineAt_locates_blank_and_end :
    (lineAt "é\n\nab\n" 3 = some ⟨2, ['\n'], 0⟩ ∧
      ∃ before after, Line.StandsIn "é\n\nab\n".toList before after ⟨2, ['\n'], 0⟩ ∧
        Text.byteLength before + 0 = 3) ∧
    lineAt "é\n\nab\n" 7 = some ⟨3, ['a', 'b', '\n'], 3⟩ ∧
      ∃ before, Line.StandsIn "é\n\nab\n".toList before [] ⟨3, ['a', 'b', '\n'], 3⟩ := by
  constructor
  · have h : lineAt "é\n\nab\n" 3 = some ⟨2, ['\n'], 0⟩ := by decide
    obtain ⟨line, before, after, hsome, hstands, hcolumn, -⟩ :=
      (lineAt_locates "é\n\nab\n" 3).2.1 (by decide)
    obtain rfl := Option.some.inj (h.symm.trans hsome)
    exact ⟨h, before, after, hstands, hcolumn⟩
  · have h : lineAt "é\n\nab\n" 7 = some ⟨3, ['a', 'b', '\n'], 3⟩ := by decide
    obtain ⟨line, before, hsome, hstands, -⟩ :=
      (lineAt_locates "é\n\nab\n" 7).2.2 (by decide) (by decide)
    obtain rfl := Option.some.inj (h.symm.trans hsome)
    exact ⟨h, before, hstands⟩

end Numlet
