import Numlet.Proofs.Outcome
import Numlet.Proofs.Tree.Unplaced
import Numlet.Tree.Cursor

/-!
How readings move a cursor. A reading that succeeds has passed some of the lexemes ahead, and one that is
put before the lexemes it looks for takes exactly these.
-/
namespace Numlet

/-- The kind of the first lexeme, where the end mark stands after the last one. -/
def Lexeme.firstKind (ls : List Lexeme) : Kind := (ls.head?.map (·.kind)).getD .eof

@[simp] theorem Lexeme.firstKind_nil : firstKind [] = .eof := rfl

@[simp] theorem Lexeme.firstKind_cons (l : Lexeme) (ls : List Lexeme) : firstKind (l :: ls) = l.kind := rfl

namespace Cursor

variable {c c' c'' : Cursor} {p q rest : List Lexeme} {l : Lexeme}

/-- The lexemes ahead, without the end mark. -/
def lexemes (c : Cursor) : List Lexeme := c.ahead.map Token.lexeme

/-- Passing some lexemes leads from one cursor to another. -/
def Moves (c : Cursor) (p : List Lexeme) (c' : Cursor) : Prop :=
  ∃ taken, c.ahead = taken ++ c'.ahead ∧ taken.map Token.lexeme = p

theorem kind_eq (c : Cursor) : c.kind = Lexeme.firstKind c.lexemes := by
  unfold kind current lexemes
  cases c.ahead <;> rfl

theorem kind_of_lexemes (h : c.lexemes = l :: rest) : c.kind = l.kind := by
  rw [kind_eq, h, Lexeme.firstKind_cons]

namespace Moves

theorem refl (c : Cursor) : c.Moves [] c := ⟨[], rfl, rfl⟩

theorem trans (h₁ : c.Moves p c') (h₂ : c'.Moves q c'') : c.Moves (p ++ q) c'' := by
  obtain ⟨ts, hts, rfl⟩ := h₁
  obtain ⟨us, hus, rfl⟩ := h₂
  exact ⟨ts ++ us, by rw [hts, hus, List.append_assoc], List.map_append⟩

theorem lexemes_eq (h : c.Moves p c') : c.lexemes = p ++ c'.lexemes := by
  obtain ⟨ts, hts, rfl⟩ := h
  rw [lexemes, hts, List.map_append, lexemes]

theorem lexemes_rest (h : c.Moves p c') (hc : c.lexemes = p ++ rest) : c'.lexemes = rest :=
  List.append_cancel_left (h.lexemes_eq.symm.trans hc)

theorem remaining_eq (h : c.Moves p c') : c.remaining = p.length + c'.remaining := by
  obtain ⟨ts, hts, rfl⟩ := h
  rw [c.remaining_eq, c'.remaining_eq, hts, List.length_append, List.length_map]

theorem remaining_lt (h : c.Moves p c') (hp : p ≠ []) : c'.remaining < c.remaining := by
  have hlength := List.length_pos_iff.mpr hp
  rw [h.remaining_eq]
  omega

end Moves

theorem current_lexeme (h : c.lexemes = l :: rest) : c.current.lexeme = l := by
  unfold lexemes at h
  unfold current
  cases hc : c.ahead with
  | nil => simp [hc] at h
  | cons t ts =>
    rw [hc, List.map_cons] at h
    exact (List.cons.inj h).1

theorem moves_of_lexemes (h : c.lexemes = l :: rest) : c.Moves [l] c.advance := by
  unfold lexemes at h
  unfold advance
  split
  · next hc => simp [hc] at h
  · next t ts hc =>
    rw [hc, List.map_cons] at h
    exact ⟨[t], by simp [hc], by simp [(List.cons.inj h).1]⟩

/-- A token that is not the end mark can be passed. -/
theorem moves_advance (h : c.kind ≠ .eof) : c.Moves [c.current.lexeme] c.advance := by
  cases hc : c.lexemes with
  | nil =>
    rw [kind_eq, hc] at h
    exact absurd rfl h
  | cons l rest =>
    rw [current_lexeme hc]
    exact moves_of_lexemes hc

end Cursor

namespace Reading

variable {α β : Type} {P : α → Prop} {Q : β → Prop} {c c' : Cursor} {p q rest : List Lexeme}

theorem take_eq_ok {t : Token} (h : take c = .ok t c') : t = c.current ∧ c' = c.advance := by
  cases h
  exact ⟨rfl, rfl⟩

/-- Taking a token that is known not to be the end mark. -/
theorem take_moves {t : Token} (hk : c.kind ≠ .eof) (h : take c = .ok t c') :
    t.kind = c.kind ∧ c.Moves [t.lexeme] c' := by
  obtain ⟨rfl, rfl⟩ := take_eq_ok h
  exact ⟨rfl, Cursor.moves_advance hk⟩

theorem expect_moves {k : Kind} {t : Token} (hk : k ≠ .eof) (h : expect k c = .ok t c') :
    t.kind = k ∧ c.Moves [t.lexeme] c' := by
  unfold expect at h
  split at h
  · next hc =>
    obtain ⟨ht, hm⟩ := take_moves (by rwa [hc]) h
    exact ⟨ht.trans hc, hm⟩
  · cases h

theorem expectOr_moves {k : Kind} {message : String} {t : Token} (hk : k ≠ .eof)
    (h : expectOr k message c = .ok t c') : t.kind = k ∧ c.Moves [t.lexeme] c' := by
  unfold expectOr at h
  split at h
  · next hc =>
    obtain ⟨ht, hm⟩ := take_moves (by rwa [hc]) h
    exact ⟨ht.trans hc, hm⟩
  · cases h

/-- From a cursor a reading succeeds and takes exactly some lexemes, with a value of a property. -/
def Takes (m : Reading α) (c : Cursor) (p : List Lexeme) (P : α → Prop) : Prop :=
  ∃ a c', m c = .ok a c' ∧ c.Moves p c' ∧ P a

theorem Takes.of_pure {a : α} (c : Cursor) (h : P a) : Takes (pure a) c [] P := ⟨a, c, rfl, .refl c, h⟩

theorem Takes.of_eq {m n : Reading α} (h : m c = n c) (h' : Takes n c p P) : Takes m c p P := by
  obtain ⟨a, c', hrun, hrest⟩ := h'
  exact ⟨a, c', h.trans hrun, hrest⟩

theorem Takes.bind {m : Reading α} {k : α → Reading β} {r : List Lexeme} (h : Takes m c p P)
    (hk : ∀ a c', c.Moves p c' → P a → Takes (k a) c' q Q) (hr : p ++ q = r := by simp) :
    Takes (m >>= k) c r Q := by
  obtain ⟨a, c', hm, hmove, ha⟩ := h
  obtain ⟨b, c'', hb, hmove', hQ⟩ := hk a c' hmove ha
  exact ⟨b, c'', (bind_of_ok hm).trans hb, hr ▸ hmove.trans hmove', hQ⟩

theorem Takes.bind_pure {m : Reading α} {f : α → β} (h : Takes m c p P) (hf : ∀ a, P a → Q (f a)) :
    Takes (m >>= fun a => pure (f a)) c p Q :=
  h.bind fun a c' _ ha => .of_pure c' (hf a ha)

theorem Takes.map {m : Reading α} {f : α → β} (h : Takes m c p P) (hf : ∀ a, P a → Q (f a)) :
    Takes (f <$> m) c p Q := by
  obtain ⟨a, c', hm, hmove, ha⟩ := h
  exact ⟨f a, c', map_eq_ok.mpr ⟨a, hm, rfl⟩, hmove, hf a ha⟩

theorem Takes.imp {m : Reading α} {P' : α → Prop} (h : Takes m c p P) (hP : ∀ a, P a → P' a) :
    Takes m c p P' := by
  obtain ⟨a, c', hm, hmove, ha⟩ := h
  exact ⟨a, c', hm, hmove, hP a ha⟩

section Lexemes

variable {l : Lexeme}

theorem take_takes (h : c.lexemes = l :: rest) : Takes take c [l] (·.lexeme = l) :=
  ⟨c.current, c.advance, rfl, Cursor.moves_of_lexemes h, Cursor.current_lexeme h⟩

/-- A token of the kind that is asked for, whatever is done about others. -/
theorem ofKind_takes {k : Kind} {m : Reading Token} (hm : c.kind = k → m c = take c)
    (h : c.lexemes = l :: rest) (hl : l.kind = k) : Takes m c [l] (·.lexeme = l) := by
  have hk : c.kind = k := (Cursor.kind_of_lexemes h).trans hl
  obtain ⟨t, c', ht, hrest⟩ := take_takes h
  exact ⟨t, c', (hm hk).trans ht, hrest⟩

theorem expect_takes {k : Kind} (h : c.lexemes = l :: rest) (hl : l.kind = k) :
    Takes (expect k) c [l] (·.lexeme = l) :=
  ofKind_takes (fun hk => if_pos hk) h hl

theorem expectOr_takes {k : Kind} (message : String) (h : c.lexemes = l :: rest) (hl : l.kind = k) :
    Takes (expectOr k message) c [l] (·.lexeme = l) :=
  ofKind_takes (fun hk => if_pos hk) h hl

theorem passed_takes {k : Kind} (h : c.lexemes = l :: rest) (hl : l.kind = k) :
    Takes (passed k) c [l] (· = true) :=
  ⟨true, c.advance, if_pos ((Cursor.kind_of_lexemes h).trans hl), Cursor.moves_of_lexemes h, rfl⟩

end Lexemes

theorem passed_takes_nothing {k : Kind} (h : c.kind ≠ k) : Takes (passed k) c [] (· = false) :=
  ⟨false, c, if_neg h, .refl c, rfl⟩

theorem lastEnd_takes (c : Cursor) : Takes lastEnd c [] fun _ => True :=
  ⟨c.previousEnd, c, rfl, .refl c, trivial⟩

theorem many_takes_nil {stop : Kind} (item : Reading α) (h : c.kind = stop) :
    Takes (many stop item) c [] (· = []) := by
  refine ⟨[], c, ?_, .refl c, rfl⟩
  rw [many, if_pos h]

theorem many_takes_cons {stop : Kind} {item : Reading α} {R : List α → Prop} {r : List Lexeme}
    (hk : c.kind ≠ stop) (hp : p ≠ []) (h : Takes item c p P)
    (hrest : ∀ c', c.Moves p c' → Takes (many stop item) c' q R) (hr : p ++ q = r := by simp) :
    Takes (many stop item) c r fun as => ∃ a as', as = a :: as' ∧ P a ∧ R as' := by
  obtain ⟨a, c₁, ha, hm₁, hP⟩ := h
  obtain ⟨as, c₂, has, hm₂, hR⟩ := hrest c₁ hm₁
  refine ⟨a :: as, c₂, ?_, hr ▸ hm₁.trans hm₂, a, as, rfl, hP, hR⟩
  rw [many, if_neg hk, ha]
  simp only [if_pos (hm₁.remaining_lt hp), has]

/-- One item of a list in parentheses, with the comma after it. -/
def listItem (item : Reading α) (message : String) : Reading α := do
  let a ← item
  let comma ← passed .comma
  if !comma && (← kind) ≠ .closeParen then complain message
  return a

theorem commaList_eq (item : Reading α) (message : String) :
    commaList item message = many .closeParen (listItem item message) := rfl

/-- After an item there is a comma, which is passed, or the closing parenthesis. -/
theorem listItem_of_ok {item : Reading α} {a : α} {c₁ : Cursor} (h : item c = .ok a c₁) (message : String) :
    listItem item message c =
      if c₁.kind = .comma then .ok a c₁.advance
      else if c₁.kind = .closeParen then .ok a c₁
      else .error (c₁.complaint message) c₁ := by
  refine (bind_of_ok h).trans ?_
  by_cases hcomma : c₁.kind = .comma
  · have hpassed : passed .comma c₁ = .ok true c₁.advance := if_pos hcomma
    rw [if_pos hcomma]
    exact bind_of_ok hpassed
  · have hpassed : passed .comma c₁ = .ok false c₁ := if_neg hcomma
    rw [if_neg hcomma]
    refine (bind_of_ok hpassed).trans ((bind_of_ok (rfl : kind c₁ = .ok c₁.kind c₁)).trans ?_)
    by_cases hclose : c₁.kind = .closeParen
    · rw [if_pos hclose, hclose]
      rfl
    · rw [if_neg hclose, decide_eq_true hclose]
      rfl

theorem listItem_takes_comma {item : Reading α} {comma : Lexeme} (h : Takes item c p P) (message : String)
    (hc : c.lexemes = p ++ comma :: rest) (hcomma : comma.kind = .comma) :
    Takes (listItem item message) c (p ++ [comma]) P := by
  obtain ⟨a, c₁, ha, hm, hP⟩ := h
  have hc₁ := hm.lexemes_rest hc
  refine ⟨a, c₁.advance, ?_, hm.trans (Cursor.moves_of_lexemes hc₁), hP⟩
  rw [listItem_of_ok ha, if_pos ((Cursor.kind_of_lexemes hc₁).trans hcomma)]

theorem listItem_takes_last {item : Reading α} (h : Takes item c p P) (message : String)
    (hc : c.lexemes = p ++ rest) (hrest : Lexeme.firstKind rest = .closeParen) :
    Takes (listItem item message) c p P := by
  obtain ⟨a, c₁, ha, hm, hP⟩ := h
  have hk : c₁.kind = .closeParen := by
    rw [Cursor.kind_eq, hm.lexemes_rest hc]
    exact hrest
  refine ⟨a, c₁, ?_, hm, hP⟩
  rw [listItem_of_ok ha, if_neg (by simp [hk]), if_pos hk]

theorem listItem_eq_ok {item : Reading α} {message : String} {a : α}
    (h : listItem item message c = .ok a c') : ∃ c₁, item c = .ok a c₁ ∧
      (c₁.kind = .comma ∧ c' = c₁.advance ∨ c₁.kind = .closeParen ∧ c' = c₁) := by
  obtain ⟨b, c₁, hitem, -⟩ := bind_eq_ok.mp h
  rw [listItem_of_ok hitem] at h
  split at h
  · next hcomma =>
    cases h
    exact ⟨_, hitem, .inl ⟨hcomma, rfl⟩⟩
  · split at h
    · next hclose =>
      cases h
      exact ⟨_, hitem, .inr ⟨hclose, rfl⟩⟩
    · cases h

end Reading

end Numlet
