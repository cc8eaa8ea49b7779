import Numlet.Proofs.Token.Standing

/-!
A scanned text is tiled by its tokens and by what is skipped before each of them. Patterns look no further
than what they take, so that a text cut off between two tiles is scanned in the same way.
-/
namespace Numlet

/-- Blanks and comments, with a text after them. A comment goes on to the end of its line. -/
inductive Filler (after : List Char) : List Char → Prop
  | nil : Filler after []
  | blanks {run rest : List Char} (hrun : run ≠ []) (hblank : ∀ c ∈ run, Text.isBlank c = true)
      (hrest : Filler after rest) : Filler after (run ++ rest)
  | comment {text rest : List Char} (htext : '\n' ∉ text) (hend : ∀ c ∈ (rest ++ after).head?, c = '\n')
      (hrest : Filler after rest) : Filler after ('/' :: '/' :: (text ++ rest))

/-- From an offset on, a text is made up of tokens with fillers before them. -/
inductive Tiles (file : String) : Nat → List Char → List Token → Prop
  | ending {offset : Nat} {gap : List Char} (hgap : Filler [] gap) :
      Tiles file offset gap [.ending ⟨offset + Text.byteLength gap, file⟩]
  | token {offset start stop : Nat} {gap value rest : List Char} {t : Token} {tokens : List Token}
      (hgap : Filler (value ++ rest) gap) (hstart : start = offset + Text.byteLength gap)
      (hstop : stop = start + Text.byteLength value) (hvalue : t.value.toList = value) (hne : value ≠ [])
      (hspan : t.span = ⟨⟨start, file⟩, ⟨stop, file⟩⟩) (hrest : Tiles file stop rest tokens) :
      Tiles file offset (gap ++ (value ++ rest)) (t :: tokens)

namespace Pattern

/-- What a pattern without a token takes goes before a filler. -/
theorem take?_filler {p : Pattern} {text : String} (hkind : p.kind? text = none)
    {cs taken gap after : List Char} (h : p.take? cs = some (taken, gap ++ after))
    (hne : taken ≠ []) (hgap : Filler after gap) : Filler after (taken ++ gap) := by
  cases p with
  | word | number | sign => cases hkind
  | blanks =>
    simp only [take?] at h
    split at h
    · obtain ⟨rfl, -⟩ := Prod.mk.inj (Option.some.inj h)
      exact .blanks hne (List.all_eq_true.mp List.all_takeWhile) hgap
    · cases h
  | comment =>
    simp only [take?] at h
    split at h
    · next rest =>
      obtain ⟨rfl, hrest⟩ := Prod.mk.inj (Option.some.inj h)
      refine .comment (fun hmem => ?_) (fun c hc => ?_) hgap
      · simpa using List.all_eq_true.mp List.all_takeWhile _ hmem
      · have hnot := List.head?_dropWhile_not (· != '\n') rest
        rw [hrest, Option.mem_def.mp hc] at hnot
        simpa using hnot
    · cases h

end Pattern

/-- A filler may be longer at the front. -/
theorem Tiles.skip {file : String} {offset : Nat} {p : Pattern} {text : String} {cs taken rest : List Char}
    {tokens : List Token} (hkind : p.kind? text = none) (htake : p.take? cs = some (taken, rest))
    (hne : taken ≠ []) (h : Tiles file (offset + Text.byteLength taken) rest tokens) :
    Tiles file offset (taken ++ rest) tokens := by
  cases h with
  | ending hgap =>
    have hall := Pattern.take?_filler hkind ((List.append_nil rest).symm ▸ htake) hne hgap
    have hend : Tiles file offset (taken ++ rest) _ := .ending hall
    rwa [Text.byteLength_append, ← Nat.add_assoc] at hend
  | token hgap hstart hstop hvalue hne' hspan hrest =>
    have hall := Pattern.take?_filler hkind htake hne hgap
    rw [← List.append_assoc]
    refine .token hall ?_ hstop hvalue hne' hspan hrest
    rw [hstart, Text.byteLength_append, Nat.add_assoc]

theorem scan_tiles {file : String} {offset : Nat} {cs : List Char} {tokens : List Token}
    (hsize : offset + Text.byteLength cs < 4294967296) (h : scan file offset cs = .ok tokens) :
    Tiles file offset cs tokens := by
  fun_induction scan file offset cs generalizing tokens with
  | case1 offset =>
    cases h
    rw [Position.wrap_of_lt (by omega)]
    exact .ending .nil
  | case2 | case3 => cases h
  | case4 offset c cs pattern taken rest hfirst =>
    rename_i tokens' hscan hkind ih
    cases h
    obtain ⟨hmem, htake⟩ := Pattern.first?_eq_some hfirst
    have happend := Pattern.take?_append htake
    rw [← happend, Text.byteLength_append] at hsize
    rw [← happend]
    exact .skip hkind htake (Pattern.take?_ne_nil hmem htake) (ih (by omega) hscan)
  | case5 offset c cs pattern taken rest hfirst length =>
    rename_i tokens' hscan kind hkind ih
    cases h
    obtain ⟨hmem, htake⟩ := Pattern.first?_eq_some hfirst
    have happend := Pattern.take?_append htake
    rw [← happend, Text.byteLength_append] at hsize
    rw [← happend]
    have hrest := ih (by omega) hscan
    refine .token .nil rfl rfl String.toList_ofList (Pattern.take?_ne_nil hmem htake) ?_ hrest
    change Span.ofLength file offset (Text.byteLength taken) = _
    rw [Span.ofLength, Position.wrap_of_lt (by omega), Position.wrap_of_lt (by omega)]
    rfl

namespace Pattern

section Cut

variable {taken mid more : List Char}

theorem takeWhile_cut {q : Char → Bool} (h : (taken ++ (mid ++ more)).takeWhile q = taken) :
    (taken ++ mid).takeWhile q = taken ∧ (taken ++ mid).dropWhile q = mid := by
  have hall : ∀ c ∈ taken, q c = true := List.all_eq_true.mp (h ▸ List.all_takeWhile)
  rw [List.takeWhile_append_of_pos hall] at h ⊢
  rw [List.dropWhile_append_of_pos hall]
  cases mid with
  | nil => exact ⟨List.append_nil _, rfl⟩
  | cons c mid =>
    cases hc : q c with
    | true => simp [hc] at h
    | false => simp [hc]

theorem after?_append_right {front cs rest : List Char} (h : after? front cs = some rest)
    (more : List Char) : after? front (cs ++ more) = some (rest ++ more) := by
  induction front generalizing cs with
  | nil =>
    cases h
    rfl
  | cons f front ih =>
    cases cs with
    | nil => cases h
    | cons c cs =>
      simp only [after?, List.cons_append] at h ⊢
      split at h
      · next hfc =>
        rw [if_pos hfc]
        exact ih h
      · cases h

theorem after?_self (front rest : List Char) : after? front (front ++ rest) = some rest := by
  induction front with
  | nil => rfl
  | cons f front ih => simpa [after?] using ih

/-- A whole number, if no point with a digit follows. -/
theorem takeNumber_whole {cs whole rest : List Char} (hwhole : cs.takeWhile Char.isDigit = whole)
    (hrest : cs.dropWhile Char.isDigit = rest)
    (hpoint : ∀ d more, rest = '.' :: d :: more → d.isDigit = false) : takeNumber cs = (whole, rest) := by
  unfold takeNumber
  rw [hwhole, hrest]
  split
  · next d more =>
    rw [if_neg (by simp [hpoint d more rfl])]
  · rfl

/-- A number with a fraction. -/
theorem takeNumber_fraction {whole fraction rest : List Char} {d : Char}
    (hwhole : ∀ c ∈ whole, c.isDigit = true) (hd : d.isDigit = true)
    (hfraction : (fraction ++ rest).takeWhile Char.isDigit = fraction)
    (hrest : (fraction ++ rest).dropWhile Char.isDigit = rest) :
    takeNumber (whole ++ '.' :: d :: (fraction ++ rest)) = (whole ++ '.' :: d :: fraction, rest) := by
  have htake : (whole ++ '.' :: d :: (fraction ++ rest)).takeWhile Char.isDigit = whole := by
    rw [List.takeWhile_append_of_pos hwhole]
    exact List.append_nil whole
  have hdrop : (whole ++ '.' :: d :: (fraction ++ rest)).dropWhile Char.isDigit =
      '.' :: d :: (fraction ++ rest) := by
    rw [List.dropWhile_append_of_pos hwhole]
    rfl
  unfold takeNumber
  simp only [htake, hdrop, hd, if_true, hfraction, hrest]

theorem takeNumber_cut (h : takeNumber (taken ++ (mid ++ more)) = (taken, mid ++ more)) :
    takeNumber (taken ++ mid) = (taken, mid) := by
  unfold takeNumber at h
  split at h
  · next d rest hdrop =>
    split at h
    · next hd =>
      -- The point and the digit after it are among what is taken.
      obtain ⟨htaken, hrest⟩ := Prod.mk.inj h
      have hsplit := List.takeWhile_append_dropWhile (p := Char.isDigit) (l := rest)
      rw [hrest] at hsplit
      obtain ⟨hfraction, hmid⟩ := takeWhile_cut (congrArg (List.takeWhile Char.isDigit) hsplit)
      have hwhole : ∀ c ∈ (taken ++ (mid ++ more)).takeWhile Char.isDigit, c.isDigit = true :=
        List.all_eq_true.mp List.all_takeWhile
      have hcut := takeNumber_fraction hwhole hd hfraction hmid
      rwa [← List.cons_append, ← List.cons_append, ← List.append_assoc, htaken] at hcut
    · next hd =>
      obtain ⟨htaken, hrest⟩ := Prod.mk.inj h
      obtain ⟨htake, hmid⟩ := takeWhile_cut htaken
      refine takeNumber_whole htake hmid fun d' more' hm => ?_
      rw [hm] at hrest
      obtain ⟨-, htail⟩ := List.cons.inj hrest
      rw [← (List.cons.inj htail).1]
      simpa using hd
  · next hno =>
    obtain ⟨htaken, hrest⟩ := Prod.mk.inj h
    obtain ⟨htake, hmid⟩ := takeWhile_cut htaken
    refine takeNumber_whole htake hmid fun d' more' hm => ?_
    rw [hm] at hrest hno
    exact absurd hrest (hno d' _)

/-- A pattern that takes nothing of a text takes nothing of the start of it. -/
theorem take?_eq_none_of_append {p : Pattern} {cs : List Char} (h : p.take? (cs ++ more) = none) :
    p.take? cs = none := by
  cases p with
  | word | number | blanks =>
    cases cs with
    | nil => rfl
    | cons c cs =>
      have hhead : (c :: cs).head? = (c :: cs ++ more).head? := rfl
      simp only [take?, hhead] at h ⊢
      split at h
      · cases h
      · next hc => exact if_neg hc
  | comment =>
    cases hcs : take? comment cs with
    | none => rfl
    | some x =>
      simp only [take?] at hcs
      split at hcs
      · cases h
      · cases hcs
  | sign kind text =>
    simp only [take?, Option.map_eq_none_iff] at h ⊢
    cases hcs : after? text.toList cs with
    | none => rfl
    | some rest => cases (after?_append_right hcs more).symm.trans h

/-- What a pattern takes does not depend on what comes later. -/
theorem take?_cut {p : Pattern} (hne : taken ≠ [])
    (h : p.take? (taken ++ (mid ++ more)) = some (taken, mid ++ more)) :
    p.take? (taken ++ mid) = some (taken, mid) := by
  have hhead : (taken ++ mid).head? = (taken ++ (mid ++ more)).head? := by
    obtain ⟨c, cs, rfl⟩ := List.exists_cons_of_ne_nil hne
    rfl
  cases p with
  | word | blanks =>
    simp only [take?, hhead] at h ⊢
    split at h
    · next hc =>
      obtain ⟨htake, hdrop⟩ := takeWhile_cut (Prod.mk.inj (Option.some.inj h)).1
      rw [if_pos hc, htake, hdrop]
    · cases h
  | number =>
    simp only [take?, hhead] at h ⊢
    split at h
    · next hc => rw [if_pos hc, takeNumber_cut (Option.some.inj h)]
    · cases h
  | comment =>
    simp only [take?] at h
    split at h
    · next rest heq =>
      obtain ⟨rfl, hrest⟩ := Prod.mk.inj (Option.some.inj h)
      simp only [List.cons_append, List.cons.injEq, true_and] at heq
      obtain ⟨htake, hdrop⟩ := takeWhile_cut (congrArg _ heq)
      simp only [take?, List.cons_append, htake, hdrop]
    · cases h
  | sign kind text =>
    simp only [take?, Option.map_eq_some_iff] at h ⊢
    obtain ⟨rest, hrest, heq⟩ := h
    obtain ⟨rfl, -⟩ := Prod.mk.inj heq
    exact ⟨mid, after?_self _ _, rfl⟩

/-- The first pattern that takes something of a text is the first one also if the text is cut off later. -/
theorem first?_cut {p : Pattern} (h : first? (taken ++ (mid ++ more)) = some (p, taken, mid ++ more)) :
    first? (taken ++ mid) = some (p, taken, mid) := by
  obtain ⟨hmem, htake⟩ := first?_eq_some h
  have hcut := take?_cut (take?_ne_nil hmem htake) htake
  unfold first? at h ⊢
  obtain ⟨before, q, after, hsplit, hq, hbefore⟩ := List.findSome?_eq_some_iff.mp h
  refine List.findSome?_eq_some_iff.mpr ⟨before, p, after, ?_, ?_, fun r hr => ?_⟩
  · obtain ⟨_, -, heq⟩ := Option.map_eq_some_iff.mp hq
    rw [hsplit, (Prod.mk.inj heq).1]
  · rw [hcut]
    rfl
  · have hnone : r.take? (taken ++ (mid ++ more)) = none := Option.map_eq_none_iff.mp (hbefore r hr)
    rw [← List.append_assoc] at hnone
    rw [take?_eq_none_of_append hnone]
    rfl

end Cut

theorem Reaches.exists_skipped {cs rest : List Char} (h : Reaches cs rest) :
    ∃ skipped, cs = skipped ++ rest := by
  induction h with
  | refl cs => exact ⟨[], rfl⟩
  | @step cs taken mid rest p h _ ih =>
    obtain ⟨skipped, rfl⟩ := ih
    exact ⟨taken ++ skipped, by rw [← first?_append h, List.append_assoc]⟩

end Pattern

/-- What has been taken of a text can be scanned on its own. -/
theorem scan_of_reaches {cs skipped rest : List Char} (h : Pattern.Reaches cs rest)
    (hcs : cs = skipped ++ rest) (file : String) (offset : Nat) :
    ∃ tokens, scan file offset skipped = .ok tokens := by
  induction h generalizing skipped offset with
  | refl cs =>
    obtain rfl : skipped = [] := by simpa using hcs
    exact ⟨_, by rw [scan]⟩
  | @step cs taken mid rest p h hmid ih =>
    obtain ⟨skipped', rfl⟩ := hmid.exists_skipped
    have happend := Pattern.first?_append h
    obtain rfl : skipped = taken ++ skipped' := by
      rw [hcs, ← List.append_assoc] at happend
      exact (List.append_cancel_right happend).symm
    rw [← happend] at h
    have hcut := Pattern.first?_cut h
    obtain ⟨tokens, htokens⟩ := ih rfl (offset + Text.byteLength taken)
    obtain ⟨c, cs', hc⟩ : ∃ c cs', taken ++ skipped' = c :: cs' := by
      have hlt := Pattern.first?_length_lt hcut
      exact List.exists_cons_of_length_pos (by omega)
    rw [hc] at hcut ⊢
    rw [scan]
    split
    · next hnone => cases hcut.symm.trans hnone
    · next p' taken' mid' hsome =>
      cases hcut.symm.trans hsome
      simp only [htokens]
      split
      · exact ⟨_, rfl⟩
      · exact ⟨_, rfl⟩

end Numlet
