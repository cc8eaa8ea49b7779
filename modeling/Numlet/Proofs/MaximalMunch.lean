import Numlet.Proofs.Outcome
import Numlet.Proofs.Token.Longest
import Numlet.Proofs.Tree.Unplaced

/-!
The longest text wins, and the tokens of a source say how to write it again. Wherever a token starts, the
first pattern that takes anything takes the longest text that any pattern has there. The values of the tokens
with single blanks between them make a source with the same lexemes.
-/
namespace Numlet

namespace Pattern

section Spacing

variable {p : Pattern} {word : String} {kind : Kind} {taken : List Char}

theorem isWordChar_blank : Text.isWordChar ' ' = false := by decide

theorem isDigit_blank : Char.isDigit ' ' = false := by decide

/-- There is no blank inside of a token. -/
theorem Spells.blank_notMem (hp : p ∈ patterns) (hkind : p.kind? word = some kind)
    (h : p.Spells taken) : ' ' ∉ taken := by
  intro hmem
  have hdigits {digits : List Char} (h : IsDigits digits) : ' ' ∉ digits := fun hmem =>
    Bool.false_ne_true (isDigit_blank.symm.trans (h.2 _ hmem))
  cases h with
  | @word c cs hstart hcs =>
    have hall : ∀ d ∈ c :: cs, Text.isWordChar d = true :=
      List.forall_mem_cons.mpr ⟨isWordChar_of_isWordStart hstart, hcs⟩
    exact Bool.false_ne_true (isWordChar_blank.symm.trans (hall _ hmem))
  | whole h => exact hdigits h hmem
  | fraction h hd =>
    rw [List.mem_append, List.mem_cons] at hmem
    obtain hmem | heq | hmem := hmem
    · exact hdigits h hmem
    · cases heq
    · exact hdigits hd hmem
  | blanks | comment => cases hkind
  | sign kind text =>
    have hall : ∀ s ∈ signs, ' ' ∉ s.2.toList := by decide
    have hsign : (kind, text) ∈ signs := by simpa [patterns] using hp
    exact hall _ hsign hmem

/-- If a text of a pattern goes on over a blank, what stands before the blank is one of its texts too. -/
theorem Spells.of_spaced (hp : p ∈ patterns) {more : List Char} (hne : taken ≠ [])
    (h : p.Spells (taken ++ ' ' :: more)) : p.Spells taken := by
  have hmem : ' ' ∈ taken ++ ' ' :: more := by simp
  cases hkind : p.kind? "" with
  | some kind => exact absurd hmem (h.blank_notMem hp hkind)
  | none =>
    cases p with
    | word | number | sign => cases hkind
    | blanks =>
      cases h with
      | blanks _ h => exact .blanks hne fun c hc => h c (List.mem_append_left _ hc)
    | comment =>
      generalize htext : taken ++ ' ' :: more = text at h
      cases h with
      | @comment cs hline =>
        obtain ⟨c, taken, rfl⟩ := List.exists_cons_of_ne_nil hne
        obtain ⟨rfl, htail⟩ := List.cons.inj htext
        cases taken with
        | nil => cases (List.cons.inj htail).1
        | cons c taken =>
          obtain ⟨rfl, hcs⟩ := List.cons.inj htail
          refine .comment fun hnewline => hline ?_
          rw [← hcs]
          exact List.mem_append_left _ hnewline

theorem takeWhile_spaced {q : Char → Bool} (hall : ∀ c ∈ taken, q c = true) (hblank : q ' ' = false)
    (more : List Char) : (taken ++ ' ' :: more).takeWhile q = taken ∧
      (taken ++ ' ' :: more).dropWhile q = ' ' :: more := by
  rw [List.takeWhile_append_of_pos hall, List.dropWhile_append_of_pos hall,
    List.takeWhile_cons_of_neg (by simp [hblank]), List.dropWhile_cons_of_neg (by simp [hblank])]
  exact ⟨List.append_nil _, rfl⟩

/-- A token ends before a blank. -/
theorem Spells.take?_spaced (hkind : p.kind? word = some kind) (h : p.Spells taken) (more : List Char) :
    p.take? (taken ++ ' ' :: more) = some (taken, ' ' :: more) := by
  cases h with
  | @word c cs hstart hcs =>
    have hall : ∀ d ∈ c :: cs, Text.isWordChar d = true :=
      List.forall_mem_cons.mpr ⟨isWordChar_of_isWordStart hstart, hcs⟩
    obtain ⟨htake, hdrop⟩ := takeWhile_spaced hall isWordChar_blank more
    simp only [Pattern.take?, htake, hdrop]
    exact if_pos hstart
  | whole h =>
    obtain ⟨htake, hdrop⟩ := takeWhile_spaced h.2 isDigit_blank more
    have hnumber := takeNumber_whole htake hdrop fun d more' heq => by cases heq
    obtain ⟨c, cs, rfl⟩ := List.exists_cons_of_ne_nil h.1
    simp only [Pattern.take?, hnumber]
    exact if_pos (h.2 c List.mem_cons_self)
  | fraction h hd =>
    obtain ⟨d, decimals, rfl⟩ := List.exists_cons_of_ne_nil hd.1
    have hall := List.forall_mem_cons.mp hd.2
    obtain ⟨htake, hdrop⟩ := takeWhile_spaced hall.2 isDigit_blank more
    have hnumber := takeNumber_fraction h.2 hall.1 htake hdrop
    rw [List.append_assoc, List.cons_append, List.cons_append]
    simp only [Pattern.take?, hnumber]
    obtain ⟨c, cs, rfl⟩ := List.exists_cons_of_ne_nil h.1
    exact if_pos (h.2 c List.mem_cons_self)
  | blanks | comment => cases hkind
  | sign kind text => simp only [Pattern.take?, after?_self, Option.map_some]

/-- A blank may be put after a token: it is still the first that is taken. -/
theorem first?_spaced (hkind : p.kind? word = some kind) (h : first? taken = some (p, taken, []))
    (more : List Char) : first? (taken ++ ' ' :: more) = some (p, taken, ' ' :: more) := by
  obtain ⟨hp, htake⟩ := first?_eq_some h
  have hne := take?_ne_nil hp htake
  obtain ⟨before, q, after, hsplit, hq, hbefore⟩ := List.findSome?_eq_some_iff.mp h
  obtain ⟨_, -, heq⟩ := Option.map_eq_some_iff.mp hq
  obtain rfl : q = p := (Prod.mk.inj heq).1
  refine List.findSome?_eq_some_iff.mpr ⟨before, q, after, hsplit, ?_, fun r hr => ?_⟩
  · rw [(take?_spells htake).take?_spaced hkind more]
    rfl
  · have hmem : r ∈ patterns := by
      rw [hsplit]
      exact List.mem_append_left _ hr
    have hnone : r.take? taken = none := Option.map_eq_none_iff.mp (hbefore r hr)
    refine Option.map_eq_none_iff.mpr (Option.eq_none_iff_forall_ne_some.mpr fun split hsome => ?_)
    -- What the earlier pattern takes is within the token, or goes on over the blank.
    obtain ⟨front, hspells, tail, hfront⟩ : ∃ front, r.Spells front ∧ front <+: taken := by
      have hspells := take?_spells hsome
      obtain ⟨tail, hle⟩ | ⟨tail, hle⟩ :=
        List.prefix_or_prefix_of_prefix ⟨split.2, take?_append hsome⟩ ⟨' ' :: more, rfl⟩
      · exact ⟨split.1, hspells, tail, hle⟩
      · cases tail with
        | nil =>
          rw [List.append_nil] at hle
          exact ⟨split.1, hspells, [], by rw [List.append_nil, hle]⟩
        | cons c tail =>
          have hcut := take?_append hsome
          rw [← hle, List.append_assoc, List.append_cancel_left_eq, List.cons_append] at hcut
          obtain rfl := (List.cons.inj hcut).1
          rw [← hle] at hspells
          exact ⟨taken, hspells.of_spaced hmem hne, [], List.append_nil _⟩
    obtain ⟨_, _, htake', -⟩ := hspells.take? tail
    rw [hfront, hnone] at htake'
    cases htake'

theorem first?_blank {cs : List Char} (h : cs.head?.any Text.isBlank = false) :
    first? (' ' :: cs) = some (blanks, [' '], cs) := by
  have hblank : Text.isBlank ' ' = true := by decide
  have htake : cs.takeWhile Text.isBlank = [] := by
    cases cs with
    | nil => rfl
    | cons c cs => exact List.takeWhile_cons_of_neg (by simpa using h)
  have hdrop : cs.dropWhile Text.isBlank = cs := by
    cases cs with
    | nil => rfl
    | cons c cs => exact List.dropWhile_cons_of_neg (by simpa using h)
  have hall : blanks.take? (' ' :: cs) = some ([' '], cs) := by
    simp only [take?, List.head?_cons, Option.any_some, hblank, if_true,
      List.takeWhile_cons_of_pos hblank, List.dropWhile_cons_of_pos hblank, htake, hdrop]
  refine List.findSome?_eq_some_iff.mpr ⟨[word, number], blanks, _, rfl, by rw [hall]; rfl, ?_⟩
  simp [take?, show Text.isWordStart ' ' = false by decide, isDigit_blank]

/-- A token does not start with a blank. -/
theorem Spells.head_notBlank (hp : p ∈ patterns) (hkind : p.kind? word = some kind)
    (h : p.Spells taken) (hne : taken ≠ []) (more : List Char) :
    (taken ++ more).head?.any Text.isBlank = false := by
  have hstarts := h.starts hne
  obtain ⟨c, cs, rfl⟩ := List.exists_cons_of_ne_nil hne
  apply Bool.eq_false_iff.mpr
  intro hblank
  have hmem : Pattern.blanks ∈ patterns := by decide
  have hzone : p.zone = Pattern.blanks.zone :=
    (zoneOf_of_starts hp hstarts).symm.trans (zoneOf_of_starts hmem hblank)
  cases p with
  | blanks | comment => cases hkind
  | word | number | sign => cases hzone

end Spacing

end Pattern

/-- A text that is one token by itself. -/
def Lexeme.StandsAlone (l : Lexeme) : Prop :=
  ∃ p : Pattern, Pattern.first? l.value.toList = some (p, l.value.toList, []) ∧
    p.kind? l.value = some l.kind

section Scan

variable {file : String} {offset : Nat} {cs taken rest : List Char} {tokens : List Token} {p : Pattern}

/-- What is taken first is scanned first, if it makes a token. -/
theorem scan_of_first? (hfirst : Pattern.first? cs = some (p, taken, rest))
    (hscan : scan file (offset + Text.byteLength taken) rest = .ok tokens) :
    ∃ tokens', scan file offset cs = .ok tokens' ∧ tokens'.map Token.lexeme =
      ((p.kind? (String.ofList taken)).map (⟨·, String.ofList taken⟩)).toList ++
        tokens.map Token.lexeme := by
  obtain ⟨c, cs', rfl⟩ : ∃ c cs', cs = c :: cs' := by
    have hlt := Pattern.first?_length_lt hfirst
    exact List.exists_cons_of_length_pos (by omega)
  rw [scan]
  split
  · next hnone => cases hfirst.symm.trans hnone
  · next hsome =>
    cases hfirst.symm.trans hsome
    simp only [hscan]
    cases p.kind? (String.ofList taken) with
    | none => exact ⟨_, rfl, rfl⟩
    | some kind => exact ⟨_, rfl, rfl⟩

/-- Each token could have been scanned from its value. -/
theorem scan_standsAlone (h : scan file offset cs = .ok tokens) :
    ∀ t ∈ tokens.dropLast, t.lexeme.StandsAlone := by
  fun_induction scan file offset cs generalizing tokens with
  | case1 =>
    cases h
    exact List.forall_mem_nil _
  | case2 | case3 => cases h
  | case4 offset c cs pattern taken rest hfirst =>
    rename_i tokens' hscan hkind ih
    cases h
    exact ih hscan
  | case5 offset c cs pattern taken rest hfirst length text =>
    rename_i tokens' hscan kind hkind ih
    cases h
    obtain ⟨init, place, rfl⟩ := scan_ending hscan
    rw [← Pattern.first?_append hfirst, ← List.nil_append rest] at hfirst
    have hcut := Pattern.first?_cut hfirst
    have hinit := ih hscan
    rw [List.dropLast_concat] at hinit
    rw [← List.cons_append, List.dropLast_concat]
    refine List.forall_mem_cons.mpr ⟨⟨pattern, ?_, hkind⟩, hinit⟩
    simpa only [Token.lexeme, text, String.toList_ofList, List.append_nil] using hcut

/-- Texts of tokens with single blanks between them are scanned as these tokens. -/
theorem scan_spaced {lexemes : List Lexeme} (h : ∀ l ∈ lexemes, l.StandsAlone) (file : String)
    (offset : Nat) :
    ∃ tokens, scan file offset ([' '].intercalate (lexemes.map (·.value.toList))) = .ok tokens ∧
      tokens.map Token.lexeme = lexemes ++ [⟨.eof, "EOF"⟩] := by
  induction lexemes generalizing offset with
  | nil => exact ⟨_, by rw [List.map_nil, List.intercalate_nil, scan], rfl⟩
  | cons l lexemes ih =>
    rw [List.forall_mem_cons] at h
    obtain ⟨⟨p, hfirst, hkind⟩, hrest⟩ := h
    have hvalue : p.kind? (String.ofList l.value.toList) = some l.kind := by rwa [String.ofList_toList]
    cases lexemes with
    | nil =>
      obtain ⟨tokens, hscan, hlexemes⟩ := ih hrest (offset + Text.byteLength l.value.toList)
      rw [List.map_singleton, List.intercalate_singleton]
      obtain ⟨tokens', hscan', hlexemes'⟩ := scan_of_first? hfirst hscan
      refine ⟨tokens', hscan', ?_⟩
      rw [hlexemes', hlexemes, hvalue, String.ofList_toList]
      rfl
    | cons l' lexemes =>
      -- The blank before the next token is taken alone, since that token does not start with one.
      have hspaced := Pattern.first?_spaced hkind hfirst
        ([' '].intercalate ((l' :: lexemes).map (·.value.toList)))
      have hhead : ([' '].intercalate ((l' :: lexemes).map (·.value.toList))).head?.any
          Text.isBlank = false := by
        obtain ⟨p', hfirst', hkind'⟩ := hrest l' List.mem_cons_self
        obtain ⟨hp', htake'⟩ := Pattern.first?_eq_some hfirst'
        have hne' := Pattern.take?_ne_nil hp' htake'
        have hnot := (Pattern.take?_spells htake').head_notBlank hp' hkind' hne'
        cases lexemes with
        | nil =>
          rw [List.map_singleton, List.intercalate_singleton, ← List.append_nil l'.value.toList]
          exact hnot []
        | cons l'' lexemes =>
          rw [List.map_cons, List.map_cons, List.intercalate_cons_cons, List.append_assoc]
          exact hnot _
      obtain ⟨tokens, hscan, hlexemes⟩ := ih hrest (offset + Text.byteLength l.value.toList + 1)
      obtain ⟨skipped, hscan', hlexemes'⟩ := scan_of_first? (Pattern.first?_blank hhead) hscan
      obtain ⟨tokens', hscan'', hlexemes''⟩ := scan_of_first? hspaced hscan'
      rw [List.map_cons, List.map_cons, List.intercalate_cons_cons, List.append_assoc]
      refine ⟨tokens', hscan'', ?_⟩
      rw [hlexemes'', hlexemes', hlexemes, hvalue, String.ofList_toList]
      rfl

end Scan

/-- What the first pattern that takes anything takes is one of its texts, and no pattern takes or has a longer
one there. Where none takes anything, none has a text. The values of the tokens of a source, with single
blanks between them and without the mark for the end, make a source with the same kinds and values. -/
theorem tokenize_longest_and_stable :
    (∀ cs, match Pattern.first? cs with
      | some (p, taken, rest) => p ∈ Pattern.patterns ∧ p.Spells taken ∧ cs = taken ++ rest ∧
        (∀ q ∈ Pattern.patterns, ∀ taken' rest', q.take? cs = some (taken', rest') →
          taken'.length ≤ taken.length) ∧
        ∀ q ∈ Pattern.patterns, ∀ text, q.Spells text → text <+: cs → text.length ≤ taken.length
      | none => ∀ q ∈ Pattern.patterns, ∀ text, q.Spells text → ¬ text <+: cs) ∧
    ∀ source file tokens, tokenize source file = .ok tokens → ∀ file', ∃ tokens',
      tokenize (" ".intercalate (tokens.dropLast.map (·.value))) file' = .ok tokens' ∧
        tokens'.map Token.lexeme = tokens.map Token.lexeme := by
  constructor
  · intro cs
    split
    · next p taken rest h =>
      obtain ⟨hspells, hlongest⟩ := Pattern.first?_longest h
      refine ⟨(Pattern.first?_eq_some h).1, hspells, (Pattern.first?_append h).symm, ?_, hlongest⟩
      intro q hq taken' rest' htake
      exact hlongest q hq taken' (Pattern.take?_spells htake) ⟨rest', Pattern.take?_append htake⟩
    · next h => exact Pattern.first?_eq_none_iff.mp h
  · intro source file tokens h file'
    have halone := scan_standsAlone h
    obtain ⟨init, place, rfl⟩ := scan_ending h
    rw [List.dropLast_concat] at halone ⊢
    have hlexemes : ∀ l ∈ init.map Token.lexeme, l.StandsAlone := List.forall_mem_map.mpr halone
    obtain ⟨tokens', hscan, heq⟩ := scan_spaced hlexemes file' 0
    refine ⟨tokens', ?_, ?_⟩
    · rw [List.map_map] at hscan
      rw [tokenize, String.toList_intercalate, List.map_map]
      exact hscan
    · rw [heq, List.map_append]
      rfl

/-- No text at the front of `-->` is longer than `--`, which is not an arrow after a minus. Without the
blanks, some of the tokens below would be others. -/
theorem tokenize_longest_and_stable_signs :
    Pattern.first? "-->".toList = some (.sign .minusMinus "--", "--".toList, ">".toList) ∧
    (∀ q ∈ Pattern.patterns, ∀ text, q.Spells text → text <+: "-->".toList → text.length ≤ 2) ∧
    ∃ tokens, tokenize "- -> = =//x\n/ /=1 2.5as" "f" = .ok tokens ∧ ∃ tokens',
      tokenize "- -> = = / /= 1 2.5 as" "g" = .ok tokens' ∧
        tokens'.map Token.lexeme = tokens.map Token.lexeme := by
  obtain ⟨hlongest, hstable⟩ := tokenize_longest_and_stable
  have hfirst : Pattern.first? "-->".toList =
      some (.sign .minusMinus "--", "--".toList, ">".toList) := by decide
  have hmunch := hlongest "-->".toList
  rw [hfirst] at hmunch
  refine ⟨hfirst, hmunch.2.2.2.2, ?_⟩
  obtain ⟨tokens, htokens, hvalues⟩ := exists_ok_of_decide
    (P := fun tokens => tokens.dropLast.map (·.value) = ["-", "->", "=", "=", "/", "/=", "1", "2.5", "as"])
    (x := tokenize "- -> = =//x\n/ /=1 2.5as" "f") (by decide +kernel)
  obtain ⟨tokens', htokens', hlexemes⟩ := hstable _ _ _ htokens "g"
  rw [hvalues] at htokens'
  exact ⟨tokens, htokens, tokens', htokens', hlexemes⟩

end Numlet
