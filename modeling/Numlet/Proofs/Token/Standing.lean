import Numlet.Token.Scan

/-!
Where the tokens of a source stand. As long as offsets fit their 32 bits, the span of a token is where its
characters are, the end mark stands after the last character, and a character that no pattern takes is
blamed at its own place.
-/
namespace Numlet

@[simp] theorem Text.byteLength_append (cs ds : List Char) :
    byteLength (cs ++ ds) = byteLength cs + byteLength ds := by
  induction cs with
  | nil => exact (Nat.zero_add _).symm
  | cons c cs ih =>
    change c.utf8Size + byteLength (cs ++ ds) = c.utf8Size + byteLength cs + byteLength ds
    rw [ih, Nat.add_assoc]

/-- The place in a file after some characters. -/
def Position.after (file : String) (before : List Char) : Position := ⟨Text.byteLength before, file⟩

theorem Position.wrap_of_lt {n : Nat} (h : n < 4294967296) : wrap n = n := Nat.mod_eq_of_lt h

/-- A token stands in a text where its characters are, the end mark after all characters. -/
def Token.StandsIn (file : String) (text : List Char) (t : Token) : Prop :=
  ∃ before taken after, text = before ++ (taken ++ after) ∧
    t.span = ⟨.after file before, .after file (before ++ taken)⟩ ∧
    (t.value.toList = taken ∨ t.kind = .eof ∧ taken ++ after = [])

theorem Pattern.first?_eq_some {cs taken rest : List Char} {p : Pattern}
    (h : first? cs = some (p, taken, rest)) : p ∈ patterns ∧ p.take? cs = some (taken, rest) := by
  obtain ⟨q, hq, h⟩ := List.exists_of_findSome?_eq_some h
  obtain ⟨⟨t, r⟩, ht, heq⟩ := Option.map_eq_some_iff.mp h
  cases heq
  exact ⟨hq, ht⟩

theorem Pattern.first?_append {cs taken rest : List Char} {p : Pattern}
    (h : first? cs = some (p, taken, rest)) : taken ++ rest = cs :=
  take?_append (first?_eq_some h).2

/-- Taking one token or stretch to skip after the other leads from a text to what is left of it. -/
inductive Pattern.Reaches : List Char → List Char → Prop
  | refl (cs : List Char) : Reaches cs cs
  | step {cs taken mid rest : List Char} {p : Pattern} (h : first? cs = some (p, taken, mid))
      (hmid : Reaches mid rest) : Reaches cs rest

section Scan

variable {file : String} {before cs : List Char} {tokens : List Token} {d : Diagnostic}

theorem scan_stands {offset : Nat} (hoffset : offset = Text.byteLength before)
    (hsize : Text.byteLength (before ++ cs) < 4294967296) (h : scan file offset cs = .ok tokens) :
    ∀ t ∈ tokens, t.StandsIn file (before ++ cs) := by
  fun_induction scan file offset cs generalizing before tokens with
  | case1 offset =>
    cases h
    subst hoffset
    rw [List.append_nil] at hsize
    refine List.forall_mem_singleton.mpr ⟨before, [], [], rfl, ?_, .inr ⟨rfl, rfl⟩⟩
    rw [List.append_nil, Position.wrap_of_lt hsize]
    rfl
  | case2 | case3 => cases h
  | case4 offset c cs pattern taken rest hfirst =>
    rename_i rest' hscan hkind ih
    cases h
    rw [← Pattern.first?_append hfirst, ← List.append_assoc] at hsize ⊢
    exact ih (by rw [hoffset, Text.byteLength_append]) hsize hscan
  | case5 offset c cs pattern taken rest hfirst length =>
    rename_i rest' hscan kind hkind ih
    cases h
    rw [← Pattern.first?_append hfirst] at hsize ⊢
    refine List.forall_mem_cons.mpr ⟨⟨before, taken, rest, rfl, ?_, .inl String.toList_ofList⟩, ?_⟩
    · simp only [Text.byteLength_append] at hsize
      simp only [Span.ofLength, Position.after, Text.byteLength_append, hoffset, length]
      rw [Position.wrap_of_lt (by omega), Position.wrap_of_lt (by omega)]
    · rw [← List.append_assoc] at hsize ⊢
      exact ih (by rw [hoffset, Text.byteLength_append]) hsize hscan

theorem scan_ending {offset : Nat} (h : scan file offset cs = .ok tokens) :
    ∃ init place, tokens = init ++ [.ending place] := by
  fun_induction scan file offset cs generalizing tokens with
  | case1 offset =>
    cases h
    exact ⟨[], _, rfl⟩
  | case2 | case3 => cases h
  | case4 offset c cs pattern taken rest hfirst length text rest' hscan hkind =>
    rename_i ih
    cases h
    exact ih hscan
  | case5 offset c cs pattern taken rest hfirst length text rest' hscan kind hkind =>
    rename_i ih
    cases h
    obtain ⟨init, place, rfl⟩ := ih hscan
    exact ⟨_ :: init, place, rfl⟩

/-- Scanning fails at the first character that it reaches and no pattern takes. -/
theorem scan_fails {offset : Nat} (hoffset : offset = Text.byteLength before)
    (hsize : Text.byteLength (before ++ cs) < 4294967296) (h : scan file offset cs = .error d) :
    ∃ skipped c after, cs = skipped ++ c :: after ∧ Pattern.Reaches cs (c :: after) ∧
      Pattern.first? (c :: after) = none ∧
      d = ⟨.unrecognisedToken c.toString, .after file (before ++ skipped)⟩ := by
  fun_induction scan file offset cs generalizing before with
  | case1 | case4 | case5 => cases h
  | case2 offset c cs hfirst =>
    cases h
    subst hoffset
    rw [Text.byteLength_append] at hsize
    refine ⟨[], c, cs, rfl, .refl _, hfirst, ?_⟩
    rw [List.append_nil, Position.wrap_of_lt (by omega)]
    rfl
  | case3 offset c cs pattern taken rest hfirst =>
    rename_i d' hscan ih
    cases h
    have happend := Pattern.first?_append hfirst
    rw [← happend, ← List.append_assoc] at hsize
    obtain ⟨skipped, c', after, rfl, hreaches, hnone, rfl⟩ :=
      ih (by rw [hoffset, Text.byteLength_append]) hsize hscan
    refine ⟨taken ++ skipped, c', after, ?_, .step hfirst hreaches, hnone, ?_⟩
    · rw [← happend, List.append_assoc]
    · rw [List.append_assoc]

end Scan

section Source

variable {source file : String} (hsize : Text.byteLength source.toList < 4294967296)

include hsize

theorem tokenize_stands {tokens : List Token} (h : tokenize source file = .ok tokens) :
    ∀ t ∈ tokens, t.StandsIn file source.toList := by
  have hzero : 0 = Text.byteLength [] := rfl
  exact scan_stands hzero hsize h

theorem tokenize_fails {d : Diagnostic} (h : tokenize source file = .error d) :
    ∃ before c after, source.toList = before ++ c :: after ∧
      Pattern.Reaches source.toList (c :: after) ∧ Pattern.first? (c :: after) = none ∧
      d = ⟨.unrecognisedToken c.toString, .after file before⟩ := by
  have hzero : 0 = Text.byteLength [] := rfl
  exact scan_fails hzero hsize h

end Source

end Numlet
