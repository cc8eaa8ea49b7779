import Numlet.Proofs.Token.Tiling

/-!
The texts that patterns stand for. A pattern takes the longest text of its own at the front of what it is
given. The patterns are in such an order that the first of them that takes anything takes the longest text of
all: a sign stands before those that it begins with, and the other patterns start with characters of their
own.
-/
namespace Numlet

namespace Pattern

/-- At least one digit and nothing else. -/
def IsDigits (cs : List Char) : Prop := cs ≠ [] ∧ ∀ c ∈ cs, c.isDigit = true

/-- The texts that a pattern stands for. -/
inductive Spells : Pattern → List Char → Prop
  | word {c : Char} {cs : List Char} (hstart : Text.isWordStart c = true)
      (hcs : ∀ d ∈ cs, Text.isWordChar d = true) : Spells .word (c :: cs)
  | whole {digits : List Char} (h : IsDigits digits) : Spells .number digits
  | fraction {digits decimals : List Char} (h : IsDigits digits) (hd : IsDigits decimals) :
      Spells .number (digits ++ '.' :: decimals)
  | blanks {cs : List Char} (hne : cs ≠ []) (h : ∀ c ∈ cs, Text.isBlank c = true) : Spells .blanks cs
  | comment {cs : List Char} (h : '\n' ∉ cs) : Spells .comment ('/' :: '/' :: cs)
  | sign (kind : Kind) (text : String) : Spells (.sign kind text) text.toList

section Takes

variable {p : Pattern} {cs taken rest : List Char}

theorem length_le_takeWhile {q : Char → Bool} {front : List Char} (h : ∀ c ∈ front, q c = true)
    (more : List Char) : front.length ≤ ((front ++ more).takeWhile q).length := by
  rw [List.takeWhile_append_of_pos h, List.length_append]
  exact Nat.le_add_right _ _

theorem isDigits_takeWhile (h : cs.head?.any Char.isDigit = true) :
    IsDigits (cs.takeWhile Char.isDigit) :=
  ⟨takeWhile_ne_nil h, List.all_eq_true.mp List.all_takeWhile⟩

theorem takeNumber_spells (h : cs.head?.any Char.isDigit = true) :
    Spells .number (takeNumber cs).1 := by
  have hwhole := isDigits_takeWhile h
  unfold takeNumber
  split
  · next d rest hdrop =>
    split
    · next hd =>
      refine .fraction hwhole ⟨List.cons_ne_nil _ _, ?_⟩
      exact List.forall_mem_cons.mpr ⟨hd, List.all_eq_true.mp List.all_takeWhile⟩
    · exact .whole hwhole
  · exact .whole hwhole

/-- What a pattern takes is one of its texts. -/
theorem take?_spells (h : p.take? cs = some (taken, rest)) : p.Spells taken := by
  cases p with
  | word =>
    cases cs with
    | nil => cases h
    | cons c cs =>
      simp only [take?] at h
      split at h
      · next hc =>
        have hin := isWordChar_of_isWordStart hc
        rw [List.takeWhile_cons_of_pos hin] at h
        cases h
        exact .word hc (List.all_eq_true.mp List.all_takeWhile)
      · cases h
  | number =>
    simp only [take?] at h
    split at h
    · next hc =>
      have hspells := takeNumber_spells hc
      rwa [Option.some.inj h] at hspells
    · cases h
  | blanks =>
    simp only [take?] at h
    split at h
    · next hc =>
      cases h
      exact .blanks (takeWhile_ne_nil hc) (List.all_eq_true.mp List.all_takeWhile)
    · cases h
  | comment =>
    simp only [take?] at h
    split at h
    · cases h
      refine .comment fun hmem => ?_
      simpa using List.all_eq_true.mp List.all_takeWhile _ hmem
    · cases h
  | sign kind text =>
    simp only [take?, Option.map_eq_some_iff] at h
    obtain ⟨r, -, h⟩ := h
    cases h
    exact .sign kind text

theorem length_whole_le_takeNumber (cs : List Char) :
    (cs.takeWhile Char.isDigit).length ≤ (takeNumber cs).1.length := by
  unfold takeNumber
  split
  · split
    · rw [List.length_append]
      exact Nat.le_add_right _ _
    · exact Nat.le_refl _
  · exact Nat.le_refl _

theorem length_fraction_le_takeNumber {digits decimals : List Char} (h : IsDigits digits)
    (hd : IsDigits decimals) (more : List Char) :
    (digits ++ '.' :: decimals).length ≤ (takeNumber (digits ++ '.' :: (decimals ++ more))).1.length := by
  obtain ⟨hne, hall⟩ := hd
  obtain ⟨d, decimals, rfl⟩ := List.exists_cons_of_ne_nil hne
  rw [List.forall_mem_cons] at hall
  have hsplit : (decimals ++ more).takeWhile Char.isDigit ++ (decimals ++ more).dropWhile Char.isDigit =
      decimals ++ more := List.takeWhile_append_dropWhile
  have htaken := takeNumber_fraction h.2 hall.1 (congrArg (List.takeWhile Char.isDigit) hsplit)
    (congrArg (List.dropWhile Char.isDigit) hsplit)
  rw [hsplit] at htaken
  rw [List.cons_append, htaken]
  have hle := length_le_takeWhile hall.2 more
  simp only [List.length_append, List.length_cons]
  omega

/-- A pattern takes something of a text that starts with one of its own, and no less than that. -/
theorem Spells.take? {front : List Char} (h : p.Spells front) (more : List Char) :
    ∃ taken rest, p.take? (front ++ more) = some (taken, rest) ∧ front.length ≤ taken.length := by
  cases h with
  | @word c cs hstart hcs =>
    refine ⟨_, _, if_pos hstart, length_le_takeWhile ?_ more⟩
    exact List.forall_mem_cons.mpr ⟨isWordChar_of_isWordStart hstart, hcs⟩
  | whole h =>
    obtain ⟨c, cs, rfl⟩ := List.exists_cons_of_ne_nil h.1
    refine ⟨_, _, if_pos (h.2 c List.mem_cons_self), ?_⟩
    exact Nat.le_trans (length_le_takeWhile h.2 more) (length_whole_le_takeNumber _)
  | fraction h hd =>
    have hle := length_fraction_le_takeNumber h hd more
    obtain ⟨c, cs, rfl⟩ := List.exists_cons_of_ne_nil h.1
    rw [List.append_assoc]
    exact ⟨_, _, if_pos (h.2 c List.mem_cons_self), hle⟩
  | blanks hne h =>
    obtain ⟨c, cs, rfl⟩ := List.exists_cons_of_ne_nil hne
    exact ⟨_, _, if_pos (h c List.mem_cons_self), length_le_takeWhile h more⟩
  | @comment cs h =>
    refine ⟨'/' :: '/' :: (cs ++ more).takeWhile (· != '\n'), _, rfl, ?_⟩
    have hline : ∀ c ∈ cs, (c != '\n') = true := by
      intro c hc
      simpa using fun heq : c = '\n' => h (heq ▸ hc)
    have hle := length_le_takeWhile hline more
    simp only [List.length_cons]
    omega
  | sign kind text =>
    refine ⟨text.toList, more, ?_, Nat.le_refl _⟩
    simp only [Pattern.take?, after?_self, Option.map_some]

end Takes

section Order

variable {p q : Pattern} {c : Char}

/-- The characters that the texts of a pattern start with. -/
def starts : Pattern → Char → Bool
  | word, c => Text.isWordStart c
  | number, c => c.isDigit
  | blanks, c => Text.isBlank c
  | comment, c => c == '/'
  | sign _ text, c => text.toList.head? == some c

theorem Spells.starts {cs : List Char} (h : p.Spells cs) (hne : cs ≠ []) :
    cs.head?.any p.starts = true := by
  cases h with
  | word hstart => exact hstart
  | whole h =>
    obtain ⟨c, cs, rfl⟩ := List.exists_cons_of_ne_nil h.1
    exact h.2 c List.mem_cons_self
  | fraction h =>
    obtain ⟨c, cs, rfl⟩ := List.exists_cons_of_ne_nil h.1
    exact h.2 c List.mem_cons_self
  | blanks _ h =>
    obtain ⟨c, cs, rfl⟩ := List.exists_cons_of_ne_nil hne
    exact h c List.mem_cons_self
  | comment => rfl
  | sign kind text =>
    obtain ⟨c, cs, hcs⟩ := List.exists_cons_of_ne_nil hne
    simp [Pattern.starts, hcs]

theorem starts_of_take? (hp : p ∈ patterns) {cs taken rest : List Char}
    (h : p.take? cs = some (taken, rest)) : cs.head?.any p.starts = true := by
  have hne := take?_ne_nil hp h
  have hstarts := (take?_spells h).starts hne
  obtain ⟨c, t, rfl⟩ := List.exists_cons_of_ne_nil hne
  rw [← take?_append h]
  exact hstarts

/-- Words, numbers and blanks have characters to start with that no other pattern has. -/
def zone : Pattern → Nat
  | word => 0
  | number => 1
  | blanks => 2
  | comment | sign _ _ => 3

def zoneOf (c : Char) : Nat :=
  if Text.isWordStart c then 0 else if c.isDigit then 1 else if Text.isBlank c then 2 else 3

theorem isDigit_bounds (h : c.isDigit = true) : 48 ≤ c.toNat ∧ c.toNat ≤ 57 := by
  simp only [Char.isDigit, Bool.and_eq_true, decide_eq_true_eq, UInt32.le_iff_toNat_le,
    ge_iff_le] at h
  exact h

theorem isWordStart_bounds (h : Text.isWordStart c = true) : 65 ≤ c.toNat ∧ c.toNat ≤ 122 := by
  change (decide (c.val ≥ 65 ∧ c.val ≤ 90) || (c.val ≥ 97 && c.val ≤ 122) || c == '_') = true at h
  simp only [Bool.or_eq_true, Bool.and_eq_true, beq_iff_eq, decide_eq_true_eq, UInt32.le_iff_toNat_le,
    ge_iff_le] at h
  change ((65 ≤ c.toNat ∧ c.toNat ≤ 90) ∨ 97 ≤ c.toNat ∧ c.toNat ≤ 122) ∨ c = '_' at h
  obtain (h | h) | rfl := h
  · omega
  · omega
  · decide

theorem isBlank_bounds (h : Text.isBlank c = true) : c.toNat ≤ 32 ∨ 133 ≤ c.toNat := by
  simp only [Text.isBlank, Bool.or_eq_true, Bool.and_eq_true, decide_eq_true_eq, beq_iff_eq] at h
  omega

theorem zoneOf_of_starts (hp : p ∈ patterns) (h : p.starts c = true) : zoneOf c = p.zone := by
  cases p with
  | word => exact if_pos h
  | number =>
    have hbounds := isDigit_bounds h
    have hword : ¬ Text.isWordStart c = true := by
      intro hstart
      have hletter := isWordStart_bounds hstart
      omega
    exact (if_neg hword).trans (if_pos h)
  | blanks =>
    have hbounds := isBlank_bounds h
    have hword : ¬ Text.isWordStart c = true := by
      intro hstart
      have hletter := isWordStart_bounds hstart
      omega
    have hdigit : ¬ c.isDigit = true := by
      intro hd
      have hnumeral := isDigit_bounds hd
      omega
    exact (if_neg hword).trans ((if_neg hdigit).trans (if_pos h))
  | comment =>
    obtain rfl : c = '/' := by simpa [starts] using h
    decide
  | sign kind text =>
    have hall : ∀ s ∈ signs, (s.2.toList.head?.all fun c => zoneOf c == 3) = true := by decide
    have hmem : (kind, text) ∈ signs := by simpa [patterns] using hp
    have hhead : text.toList.head? = some c := by simpa [starts] using h
    have hsign := hall _ hmem
    rw [hhead] at hsign
    exact beq_iff_eq.mp hsign

/-- Where both take something, the later of two patterns takes no more than the earlier one. -/
def Precedes (p q : Pattern) : Prop :=
  ∀ cs taken rest taken' rest', p.take? cs = some (taken, rest) → q.take? cs = some (taken', rest') →
    taken'.length ≤ taken.length

/-- What makes it right to try one pattern before the other. -/
def mayPrecede : Pattern → Pattern → Bool
  | sign _ text, sign _ text' => !text.toList.isPrefixOf text'.toList
  | comment, sign _ text => text.toList.length ≤ 2
  | p, q => p.zone != q.zone

theorem patterns_mayPrecede : patterns.Pairwise fun p q => p.mayPrecede q = true := by decide

theorem Precedes.of_zone (hp : p ∈ patterns) (hq : q ∈ patterns) (h : p.zone ≠ q.zone) :
    p.Precedes q := by
  intro cs taken rest taken' rest' htake htake'
  have hfirst := starts_of_take? hp htake
  have hsecond := starts_of_take? hq htake'
  cases cs with
  | nil => cases hfirst
  | cons c cs =>
    exact absurd ((zoneOf_of_starts hp hfirst).symm.trans (zoneOf_of_starts hq hsecond)) h

theorem precedes_of_mayPrecede (hp : p ∈ patterns) (hq : q ∈ patterns) (h : p.mayPrecede q = true) :
    p.Precedes q := by
  unfold mayPrecede at h
  split at h
  · next kind text kind' text' =>
    -- If the later sign were the longer one, the earlier one would begin it.
    intro cs taken rest taken' rest' htake htake'
    cases take?_spells htake
    cases take?_spells htake'
    apply Nat.le_of_not_lt
    intro hlt
    have hbegins := List.prefix_of_prefix_length_le ⟨rest, take?_append htake⟩
      ⟨rest', take?_append htake'⟩ (Nat.le_of_lt hlt)
    rw [List.isPrefixOf_iff_prefix.mpr hbegins] at h
    cases h
  · next kind text =>
    intro cs taken rest taken' rest' htake htake'
    cases take?_spells htake
    cases take?_spells htake'
    have hle : text.toList.length ≤ 2 := by simpa using h
    simp only [List.length_cons]
    omega
  · exact .of_zone hp hq (by simpa using h)

/-- The patterns are in the right order. -/
theorem patterns_ordered : patterns.Pairwise Precedes :=
  patterns_mayPrecede.imp_of_mem fun hp hq h => precedes_of_mayPrecede hp hq h

/-- What the first pattern takes is one of its texts, and no pattern has a longer one there. -/
theorem first?_longest {cs taken rest : List Char} (h : first? cs = some (p, taken, rest)) :
    p.Spells taken ∧ ∀ q ∈ patterns, ∀ text, q.Spells text → text <+: cs →
      text.length ≤ taken.length := by
  obtain ⟨hp, htake⟩ := first?_eq_some h
  refine ⟨take?_spells htake, fun q hq text hspells htext => ?_⟩
  obtain ⟨more, rfl⟩ := htext
  obtain ⟨taken', rest', htake', hle⟩ := hspells.take? more
  apply Nat.le_trans hle
  obtain ⟨before, r, after, hsplit, hr, hbefore⟩ := List.findSome?_eq_some_iff.mp h
  obtain rfl : r = p := by
    obtain ⟨_, -, heq⟩ := Option.map_eq_some_iff.mp hr
    exact (Prod.mk.inj heq).1
  rw [hsplit, List.mem_append, List.mem_cons] at hq
  obtain hq | rfl | hq := hq
  · have hnone := Option.map_eq_none_iff.mp (hbefore q hq)
    cases hnone.symm.trans htake'
  · cases htake.symm.trans htake'
    exact Nat.le_refl _
  · have hordered := patterns_ordered
    rw [hsplit, List.pairwise_append, List.pairwise_cons] at hordered
    exact hordered.2.1.1 q hq _ _ _ _ _ htake htake'

/-- Where no pattern takes anything, none has a text. -/
theorem first?_eq_none_iff {cs : List Char} :
    first? cs = none ↔ ∀ q ∈ patterns, ∀ text, q.Spells text → ¬ text <+: cs := by
  constructor
  · rintro h q hq text hspells ⟨more, rfl⟩
    obtain ⟨taken, rest, htake, -⟩ := hspells.take? more
    have hnone := Option.map_eq_none_iff.mp (List.findSome?_eq_none_iff.mp h q hq)
    cases hnone.symm.trans htake
  · intro h
    refine List.findSome?_eq_none_iff.mpr fun q hq => Option.map_eq_none_iff.mpr ?_
    cases htake : q.take? cs with
    | none => rfl
    | some split =>
      exact absurd ⟨split.2, take?_append htake⟩ (h q hq split.1 (take?_spells htake))

end Order

end Pattern

end Numlet
