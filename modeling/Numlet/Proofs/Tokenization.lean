import Numlet.Proofs.Outcome
import Numlet.Proofs.Token.Tiling

/-!
What the tokens of a source say about it. No text is lost: between the tokens, which have their text from
the source, there is nothing but blanks and comments. A source is given up only at a character that starts
nothing.
-/
namespace Numlet

/-- The bytes of a text from `start` to `stop` are `part`, and `after` follows them. -/
def Text.Reads (text : List Char) (start stop : Nat) (part after : List Char) : Prop :=
  ∃ before, text = before ++ (part ++ after) ∧ byteLength before = start ∧ start + byteLength part = stop

/-- The stretches of bytes before the tokens, from `offset` on. -/
def gaps (offset : Nat) : List Token → List (Nat × Nat)
  | [] => []
  | t :: tokens => (offset, t.span.start.offset) :: gaps t.span.stop.offset tokens

/-- A token is not empty and has its text from the source. -/
def Token.ReadFrom (file : String) (text : List Char) (t : Token) : Prop :=
  ∃ start stop after, start < stop ∧ t.span = ⟨⟨start, file⟩, ⟨stop, file⟩⟩ ∧
    Text.Reads text start stop t.value.toList after

theorem Text.byteLength_pos {cs : List Char} (h : cs ≠ []) : 0 < byteLength cs := by
  cases cs with
  | nil => exact absurd rfl h
  | cons c cs =>
    change 0 < c.utf8Size + byteLength cs
    have hc := c.utf8Size_pos
    omega

namespace Tiles

variable {file : String} {offset : Nat} {before cs : List Char} {tokens : List Token}

/-- Where the tiles after a token start. -/
theorem beyond {start stop : Nat} {gap value : List Char} (rest : List Char)
    (hbefore : Text.byteLength before = offset) (hstart : start = offset + Text.byteLength gap)
    (hstop : stop = start + Text.byteLength value) : Text.byteLength (before ++ (gap ++ value)) = stop ∧
      before ++ (gap ++ value) ++ rest = before ++ (gap ++ (value ++ rest)) := by
  constructor
  · simp only [Text.byteLength_append]
    omega
  · simp only [List.append_assoc]

theorem exists_init (h : Tiles file offset cs tokens) (hbefore : Text.byteLength before = offset) :
    ∃ init, tokens = init ++ [.ending ⟨Text.byteLength (before ++ cs), file⟩] ∧
      (∀ t ∈ init, offset ≤ t.span.start.offset) ∧ (∀ t ∈ init, t.ReadFrom file (before ++ cs)) ∧
      init.Pairwise fun t u => t.span.stop.offset ≤ u.span.start.offset := by
  induction h generalizing before with
  | @ending offset gap hgap =>
    refine ⟨[], ?_, List.forall_mem_nil _, List.forall_mem_nil _, .nil⟩
    rw [Text.byteLength_append, hbefore, List.nil_append]
  | @token offset start stop gap value rest t tokens hgap hstart hstop hvalue hne hspan hrest ih =>
    obtain ⟨hstop', htext⟩ := beyond rest hbefore hstart hstop
    obtain ⟨init, rfl, hafter, hread, hsorted⟩ := ih hstop'
    have hpos := Text.byteLength_pos hne
    rw [htext] at hread ⊢
    refine ⟨t :: init, rfl, ?_, ?_, ?_⟩
    · rw [List.forall_mem_cons, hspan]
      refine ⟨by change offset ≤ start; omega, fun u hu => Nat.le_trans ?_ (hafter u hu)⟩
      omega
    · refine List.forall_mem_cons.mpr ⟨?_, hread⟩
      refine ⟨start, stop, rest, by omega, hspan, before ++ gap, ?_, ?_, ?_⟩
      · rw [hvalue, List.append_assoc]
      · rw [Text.byteLength_append, hbefore, hstart]
      · rw [hvalue, hstop]
    · refine List.pairwise_cons.mpr ⟨fun u hu => ?_, hsorted⟩
      rw [hspan]
      exact hafter u hu

theorem filled (h : Tiles file offset cs tokens) (hbefore : Text.byteLength before = offset) :
    ∀ gap ∈ gaps offset tokens, ∃ part after,
      Text.Reads (before ++ cs) gap.1 gap.2 part after ∧ Filler after part := by
  induction h generalizing before with
  | @ending offset gap hgap =>
    refine List.forall_mem_singleton.mpr ⟨gap, [], ⟨before, by rw [List.append_nil], hbefore, rfl⟩, hgap⟩
  | @token offset start stop gap value rest t tokens hgap hstart hstop hvalue hne hspan hrest ih =>
    obtain ⟨hstop', htext⟩ := beyond rest hbefore hstart hstop
    have hlater := ih hstop'
    rw [htext] at hlater
    rw [gaps, hspan]
    refine List.forall_mem_cons.mpr ⟨⟨gap, value ++ rest, ⟨before, rfl, hbefore, hstart.symm⟩, hgap⟩, hlater⟩

end Tiles

/-- The tokens of a source that can be scanned end with the mark for its end. The others are not empty, they
follow one another without overlap, each has its text from the source, and before each and after the last
there are only blanks and comments. A source that cannot be scanned has a character at the place of the
fault that no pattern takes, and what is before it can be scanned. -/
theorem tokenize_exact (source file : String) (hsize : Text.byteLength source.toList < 4294967296) :
    match tokenize source file with
    | .ok tokens => ∃ init, tokens = init ++ [.ending ⟨Text.byteLength source.toList, file⟩] ∧
      (∀ t ∈ init, t.ReadFrom file source.toList) ∧
      init.Pairwise (fun t u => t.span.stop.offset ≤ u.span.start.offset) ∧
      ∀ gap ∈ gaps 0 tokens, ∃ part after,
        Text.Reads source.toList gap.1 gap.2 part after ∧ Filler after part
    | .error d => ∃ before c after, source.toList = before ++ c :: after ∧
      d = ⟨.unrecognisedToken c.toString, ⟨Text.byteLength before, file⟩⟩ ∧
      (∀ p ∈ Pattern.patterns, p.take? (c :: after) = none) ∧
      ∃ tokens, tokenize (String.ofList before) file = .ok tokens := by
  cases h : tokenize source file with
  | ok tokens =>
    have htiles := scan_tiles (by rwa [Nat.zero_add]) h
    have hzero : Text.byteLength [] = 0 := rfl
    obtain ⟨init, htokens, -, hread, hsorted⟩ := htiles.exists_init hzero
    exact ⟨init, htokens, hread, hsorted, htiles.filled hzero⟩
  | error d =>
    obtain ⟨before, c, after, hsource, hreaches, hnone, hd⟩ := tokenize_fails hsize h
    refine ⟨before, c, after, hsource, hd, fun p hp => ?_, ?_⟩
    · exact Option.map_eq_none_iff.mp (List.findSome?_eq_none_iff.mp hnone p hp)
    · have hscan := scan_of_reaches hreaches hsource file 0
      rwa [← String.toList_ofList (l := before)] at hscan

/-- Blanks and comments may have characters of several bytes, and no number starts with its point. -/
theorem tokenize_exact_beyond_ascii :
    (∃ init, tokenize "a\u3000// é\n+=2.5" "f" = .ok (init ++ [.ending ⟨15, "f"⟩]) ∧
      (∀ t ∈ init, t.ReadFrom "f" "a\u3000// é\n+=2.5".toList) ∧
      ∃ part after, Text.Reads "a\u3000// é\n+=2.5".toList 1 10 part after ∧ Filler after part) ∧
    tokenize "a1\u3000.5" "f" = .error ⟨.unrecognisedToken ".", ⟨5, "f"⟩⟩ ∧
    ∃ before c after, "a1\u3000.5".toList = before ++ c :: after ∧ Text.byteLength before = 5 ∧
      (∀ p ∈ Pattern.patterns, p.take? (c :: after) = none) ∧
      ∃ tokens, tokenize (String.ofList before) "f" = .ok tokens := by
  refine ⟨?_, ?_⟩
  · obtain ⟨tokens, h, hgap⟩ := exists_ok_of_decide (P := fun tokens => (1, 10) ∈ gaps 0 tokens)
      (x := tokenize "a\u3000// é\n+=2.5" "f") (by decide +kernel)
    have hexact := tokenize_exact "a\u3000// é\n+=2.5" "f" (by decide)
    rw [h] at hexact
    obtain ⟨init, rfl, hread, -, hfilled⟩ := hexact
    exact ⟨init, h, hread, hfilled _ hgap⟩
  · have h : tokenize "a1\u3000.5" "f" = .error ⟨.unrecognisedToken ".", ⟨5, "f"⟩⟩ :=
      eq_error_of_decide (by decide +kernel)
    have hexact := tokenize_exact "a1\u3000.5" "f" (by decide)
    rw [h] at hexact
    obtain ⟨before, c, after, hsource, hd, hnone, hbefore⟩ := hexact
    have hplace : (5 : Nat) = Text.byteLength before := congrArg (·.position.offset) hd
    exact ⟨h, before, c, after, hsource, hplace.symm, hnone, hbefore⟩

end Numlet
