import Numlet.Proofs.Tree.Accepted

/-!
What the grammar derives, the reading of an expression accepts. A derivation in a stratum is followed along
its left side: once the reading has passed the lexemes of a part, it goes on climbing with the tree of this
part, at any level that the operators of the stratum are above.
-/
namespace Numlet

/-- How strongly the first of some lexemes binds to what stands before it. -/
def Lexeme.rankOf (ls : List Lexeme) : Nat := (Grammar.standard.level (firstKind ls)).rank

theorem Lexeme.rankOf_cons {first : Lexeme} {k : Kind} (h : first.kind = k) (rest : List Lexeme) :
    rankOf (first :: rest) = (Grammar.standard.level k).rank := by
  rw [rankOf, firstKind_cons, h]

open Lexeme (rankOf)

namespace Reading

variable {c c₁ : Cursor} {p q rest : List Lexeme} {t l : Expr} {level : Level} {e : ExprReader}

theorem opening_run (e : ExprReader) (c : Cursor) : opening .standard e c =
    (match Grammar.standard.opening? c.kind with
      | none => refuse
      | some .primary => primary
      | some .unary => unary e
      | some .group => group e) c := rfl

theorem continuation_run (e : ExprReader) (left : Expr) (c : Cursor) :
    continuation .standard e left c =
      (match Grammar.standard.continuation? c.kind with
        | none => refuse
        | some .assignment => assignment e left
        | some .binary => binary e left (Grammar.standard.level c.kind)
        | some .conversion => conversion left
        | some .call => call e left
        | some .update => update left) c := rfl

/-- A word that is an expression by itself. -/
theorem opening_takes_word {word : Lexeme} (hc : c.lexemes = word :: rest)
    (h : (∃ value, word.kind = .number ∧ literal? word.value = some value ∧ t = .literal value .nowhere) ∨
      word.kind = .trueWord ∧ t = .literal (.int 1) .nowhere ∨
      word.kind = .falseWord ∧ t = .literal (.int 0) .nowhere ∨
      word.kind = .identifier ∧ t = .var word.value .nowhere) :
    Takes (opening .standard e) c [word] (·.unplaced = t) := by
  have hcurrent := Cursor.current_lexeme hc
  have hprimary : ∀ a : Expr, Grammar.standard.opening? word.kind = some .primary → a.unplaced = t →
      primary c = .ok a c.advance → Takes (opening .standard e) c [word] (·.unplaced = t) := by
    intro a hk ha hrun
    refine ⟨a, c.advance, (opening_run e c).trans ?_, Cursor.moves_of_lexemes hc, ha⟩
    rw [Cursor.kind_of_lexemes hc, hk]
    exact hrun
  have hget : ∀ k : Cursor → Reading Expr, (get >>= k) c = k c c :=
    fun k => bind_of_ok (get_eq_ok.mpr ⟨rfl, rfl⟩)
  subst hcurrent
  obtain ⟨value, hk, hv, rfl⟩ | ⟨hk, rfl⟩ | ⟨hk, rfl⟩ | ⟨hk, rfl⟩ := h
  · refine hprimary (.literal value c.current.span) (by rw [hk]; rfl) rfl ?_
    change c.current.kind = .number at hk
    change literal? c.current.value = some value at hv
    unfold primary
    rw [hget]
    simp only [hk, hv]
    rfl
  · refine hprimary (.literal (.int 1) c.current.span) (by rw [hk]; rfl) rfl ?_
    change c.current.kind = .trueWord at hk
    unfold primary
    rw [hget]
    simp only [hk]
    rfl
  · refine hprimary (.literal (.int 0) c.current.span) (by rw [hk]; rfl) rfl ?_
    change c.current.kind = .falseWord at hk
    unfold primary
    rw [hget]
    simp only [hk]
    rfl
  · refine hprimary (.var c.current.value c.current.span) (by rw [hk]; rfl) rfl ?_
    change c.current.kind = .identifier at hk
    unfold primary
    rw [hget]
    simp only [hk]
    rfl

/-- A sign and its operand. -/
theorem opening_takes_sign {sign : Lexeme} {op : UnaryOp} (hc : c.lexemes = sign :: rest)
    (hop : UnaryOp.ofKind? sign.kind = some op)
    (h : ∀ c₁, c.Moves [sign] c₁ → Takes (e .unary) c₁ p (·.unplaced = t)) :
    Takes (opening .standard e) c (sign :: p) (·.unplaced = .unary op t .nowhere) := by
  have hunary : Takes (unary e) c (sign :: p) (·.unplaced = .unary op t .nowhere) := by
    refine (take_takes hc).bind (q := p) fun first c₁ hm hfirst => ?_
    have hsame : first.kind = sign.kind := congrArg Lexeme.kind hfirst
    refine (h c₁ hm).bind_pure fun operand ht => ?_
    rw [Expr.unplaced, ht, hsame]
    congr 1
    obtain ⟨hk, rfl⟩ | ⟨hk, rfl⟩ | ⟨hk, rfl⟩ := UnaryOp.kind_of_ofKind? hop <;> rw [hk]
  refine hunary.of_eq ((opening_run e c).trans ?_)
  rw [Cursor.kind_of_lexemes hc]
  obtain ⟨hk, -⟩ | ⟨hk, -⟩ | ⟨hk, -⟩ := UnaryOp.kind_of_ofKind? hop <;> rw [hk] <;> rfl

/-- An expression in parentheses. -/
theorem opening_takes_group {first last : Lexeme} (hc : c.lexemes = first :: (p ++ last :: rest))
    (hfirst : first.kind = .openParen) (hlast : last.kind = .closeParen)
    (h : ∀ c₁, c.Moves [first] c₁ → Takes (e .weakest) c₁ p (·.unplaced = t)) :
    Takes (opening .standard e) c (first :: (p ++ [last])) (·.unplaced = t) := by
  have hgroup : Takes (group e) c (first :: (p ++ [last])) (·.unplaced = t) := by
    refine (take_takes hc).bind (q := p ++ [last]) fun _ c₁ hm₁ _ => ?_
    have hc₁ := hm₁.lexemes_rest (p := [first]) hc
    refine (h c₁ hm₁).bind (q := [last]) fun inner c₂ hm₂ ht => ?_
    exact (expect_takes (hm₂.lexemes_rest hc₁) hlast).bind_pure fun _ _ => ht
  refine hgroup.of_eq ((opening_run e c).trans ?_)
  rw [Cursor.kind_of_lexemes hc, hfirst]
  rfl

/-- What an assignment with a sign stores. -/
def stored (op : Option BinaryOp) (l r : Expr) : Expr :=
  match op with
  | none => r
  | some op => .binary op l r .nowhere

theorem continuation_takes_assignment {sign : Lexeme} {left r : Expr} (hc : c.lexemes = sign :: rest)
    (hk : Grammar.standard.continuation? sign.kind = some .assignment) (hl : left.unplaced = l)
    (h : ∀ c₁, c.Moves [sign] c₁ → Takes (e .comma) c₁ q (·.unplaced = r)) :
    Takes (continuation .standard e left) c (sign :: q)
      (·.unplaced = .assign l (stored (BinaryOp.ofKind? sign.kind) l r) .nowhere) := by
  refine Takes.of_eq (n := assignment e left) ?_ ?_
  · rw [continuation_run, Cursor.kind_of_lexemes hc, hk]
  refine (take_takes hc).bind (q := q) fun first c₁ hm hfirst => ?_
  refine (h c₁ hm).bind (q := []) fun right c₂ _ hr => ?_
  have hkind : first.kind = sign.kind := congrArg Lexeme.kind hfirst
  rw [hkind]
  cases BinaryOp.ofKind? sign.kind with
  | none => exact .of_pure c₂ (by simp [Expr.unplaced, hl, hr, stored])
  | some op => exact .of_pure c₂ (by simp [Expr.unplaced, hl, hr, stored])

theorem continuation_takes_binary {sign : Lexeme} {left r : Expr} {op : BinaryOp}
    (hc : c.lexemes = sign :: rest) (hk : Grammar.standard.continuation? sign.kind = some .binary)
    (hop : BinaryOp.ofKind? sign.kind = some op) (hl : left.unplaced = l)
    (h : ∀ c₁, c.Moves [sign] c₁ →
      Takes (e (Grammar.standard.level sign.kind)) c₁ q (·.unplaced = r)) :
    Takes (continuation .standard e left) c (sign :: q) (·.unplaced = .binary op l r .nowhere) := by
  refine Takes.of_eq (n := binary e left (Grammar.standard.level sign.kind)) ?_ ?_
  · rw [continuation_run, Cursor.kind_of_lexemes hc, hk]
  refine (take_takes hc).bind (q := q) fun first c₁ hm hfirst => ?_
  have hkind : first.kind = sign.kind := congrArg Lexeme.kind hfirst
  rw [hkind, hop]
  exact (h c₁ hm).bind_pure fun right hr => by rw [Expr.unplaced, hl, hr]

theorem numType_takes {word : Lexeme} {type : NumType} (hc : c.lexemes = word :: rest)
    (hword : word.kind = .identifier) (htype : NumType.ofName? word.value = some type) :
    Takes numType c [word] (· = type) := by
  refine (expectOr_takes _ hc hword).bind (q := []) fun first c₁ _ hfirst => ?_
  have hvalue : first.value = word.value := congrArg Lexeme.value hfirst
  rw [hvalue, htype]
  exact .of_pure c₁ rfl

theorem continuation_takes_conversion {sign word : Lexeme} {left : Expr} {type : NumType}
    (hc : c.lexemes = sign :: word :: rest) (hk : sign.kind = .asWord) (hword : word.kind = .identifier)
    (htype : NumType.ofName? word.value = some type) (hl : left.unplaced = l) :
    Takes (continuation .standard e left) c [sign, word] (·.unplaced = .convert l none type .nowhere) := by
  refine Takes.of_eq (n := conversion left) ?_ ?_
  · rw [continuation_run, Cursor.kind_of_lexemes hc, hk]
    rfl
  refine (take_takes hc).bind (q := [word]) fun first c₁ hm _ => ?_
  refine (numType_takes (hm.lexemes_rest (p := [sign]) hc) hword htype).bind (q := []) fun target c₂ _ ht => ?_
  exact (lastEnd_takes c₂).bind_pure fun _ _ => by rw [Expr.unplaced, hl, ht]

theorem continuation_takes_update {sign : Lexeme} {left : Expr} {op : UpdateOp} {target : String}
    (hc : c.lexemes = sign :: rest) (hop : UpdateOp.ofKind? sign.kind = some op)
    (hl : left.unplaced = .var target .nowhere) :
    Takes (continuation .standard e left) c [sign] (·.unplaced = .update op target .nowhere .nowhere) := by
  obtain ⟨span, rfl⟩ : ∃ span, left = .var target span := by
    cases left <;> simp_all [Expr.unplaced]
  refine Takes.of_eq (n := update (.var target span)) ?_ ?_
  · rw [continuation_run, Cursor.kind_of_lexemes hc]
    obtain ⟨hk, -⟩ | ⟨hk, -⟩ := UpdateOp.kind_of_ofKind? hop <;> rw [hk] <;> rfl
  refine (take_takes hc).bind (q := []) fun first c₁ hm hfirst => ?_
  have hkind : first.kind = sign.kind := congrArg Lexeme.kind hfirst
  refine .of_pure c₁ ?_
  rw [Expr.unplaced, hkind]
  obtain ⟨hk, rfl⟩ | ⟨hk, rfl⟩ := UpdateOp.kind_of_ofKind? hop <;> rw [hk] <;> rfl

theorem continuation_takes_call {first last : Lexeme} {left : Expr} {callee : String} {ts : List Expr}
    (hc : c.lexemes = first :: (q ++ last :: rest)) (hfirst : first.kind = .openParen)
    (hlast : last.kind = .closeParen) (hl : left.unplaced = .var callee .nowhere)
    (h : ∀ c₁ message, c.Moves [first] c₁ →
      Takes (commaList (e .comma) message) c₁ q (unplacedExprs · = ts)) :
    Takes (continuation .standard e left) c (first :: (q ++ [last]))
      (·.unplaced = .call callee ts .nowhere) := by
  obtain ⟨span, rfl⟩ : ∃ span, left = .var callee span := by
    cases left <;> simp_all [Expr.unplaced]
  refine Takes.of_eq (n := call e (.var callee span)) ?_ ?_
  · rw [continuation_run, Cursor.kind_of_lexemes hc, hfirst]
    rfl
  refine (take_takes hc).bind (q := q ++ [last]) fun _ c₁ hm₁ _ => ?_
  have hc₁ := hm₁.lexemes_rest (p := [first]) hc
  refine (h c₁ _ hm₁).bind (q := [last]) fun arguments c₂ hm₂ ht => ?_
  refine (expect_takes (hm₂.lexemes_rest hc₁) hlast).bind (q := []) fun _ c₃ _ _ => ?_
  exact (lastEnd_takes c₃).bind_pure fun _ _ => by rw [Expr.unplaced, ht]

theorem rank_eq (h : c.lexemes = rest) : c.rank = rankOf rest := by
  rw [Cursor.rank, Cursor.kind_eq, h]
  rfl

/-- From a cursor the reading passes some lexemes and goes on climbing with a tree. -/
def Reaches (c : Cursor) (level : Level) (p : List Lexeme) (t : Expr) : Prop :=
  ∃ left c', left.unplaced = t ∧ c.Moves p c' ∧
    exprStep .standard (exprBehind c) level c = climb .standard (exprBehind c) level left c'

/-- What begins an expression is reached first. -/
theorem Reaches.of_opening (h : Takes (opening .standard (exprBehind c)) c p (·.unplaced = t)) :
    Reaches c level p t := by
  obtain ⟨left, c', hopen, hm, ht⟩ := h
  exact ⟨left, c', ht, hm, bind_of_ok hopen⟩

/-- One step of climbing. -/
theorem Reaches.step (h : Reaches c level p l) (hc : c.lexemes = p ++ q) (hlevel : level.rank < rankOf q)
    {q₁ : List Lexeme} (hne : q₁ ≠ [])
    (hstep : ∀ left c₁, left.unplaced = l → c.Moves p c₁ → c₁.lexemes = q →
      Takes (continuation .standard (exprBehind c) left) c₁ q₁ (·.unplaced = t)) :
    Reaches c level (p ++ q₁) t := by
  obtain ⟨left, c₁, hl, hm₁, hrun⟩ := h
  have hq := hm₁.lexemes_rest hc
  obtain ⟨longer, c₂, hnext, hm₂, ht⟩ := hstep left c₁ hl hm₁ hq
  refine ⟨longer, c₂, ht, hm₁.trans hm₂, hrun.trans ?_⟩
  have hlt : level.rank < (Grammar.standard.level c₁.kind).rank := by
    rw [← rank_eq hq] at hlevel
    exact hlevel
  rw [climb, if_pos hlt, hnext]
  exact if_pos (hm₂.remaining_lt hne)

/-- Climbing stops before a token that binds no more strongly than the level. -/
theorem Reaches.expr_takes (h : Reaches c level p t) (hc : c.lexemes = p ++ rest)
    (hstop : rankOf rest ≤ level.rank) : Takes (expr .standard level) c p (·.unplaced = t) := by
  obtain ⟨left, c', ht, hm, hrun⟩ := h
  refine ⟨left, c', ?_, hm, ht⟩
  rw [expr_eq, hrun, climb]
  have hrank : (Grammar.standard.level c'.kind).rank ≤ level.rank := by
    rw [← rank_eq (hm.lexemes_rest hc)] at hstop
    exact hstop
  exact if_neg (Nat.not_lt.mpr hrank)

/-- A part that starts behind a cursor. -/
theorem behind_takes {P : Expr → Prop} (h : Takes (expr .standard level) c₁ p P) (hm : c.Moves q c₁) (hq : q ≠ []) :
    Takes (exprBehind c level) c₁ p P := h.of_eq (exprBehind_of_lt (hm.remaining_lt hq))

/-- A right operand, which is read behind the cursor of its whole. -/
theorem behind_reaches {c₂ : Cursor} {r : Expr}
    (hreach : ∀ c₂ : Cursor, c₂.lexemes = q ++ rest → Reaches c₂ level q r)
    (hstop : rankOf rest ≤ level.rank) (hm : c.Moves p c₂) (hp : p ≠ []) (hc₂ : c₂.lexemes = q ++ rest) :
    Takes (exprBehind c level) c₂ q (·.unplaced = r) :=
  behind_takes ((hreach c₂ hc₂).expr_takes hc₂ hstop) hm hp

/-- An argument, which ends before a comma or a parenthesis. -/
theorem Reaches.argument_takes (h : Reaches c₁ .comma p t) (hbehind : c₁.remaining < c.remaining)
    (hc₁ : c₁.lexemes = p ++ rest) (hstop : rankOf rest = 0) :
    Takes (exprBehind c .comma) c₁ p (·.unplaced = t) :=
  (h.expr_takes hc₁ (by rw [hstop]; exact Nat.zero_le _)).of_eq (exprBehind_of_lt hbehind)

theorem Reaches.assign {sign : Lexeme} {r : Expr} (hl : Reaches c level p l)
    (hc : c.lexemes = p ++ sign :: (q ++ rest))
    (hk : Grammar.standard.continuation? sign.kind = some .assignment)
    (hlevel : level.rank < Level.assignment.rank)
    (hr : ∀ c₂ : Cursor, c₂.lexemes = q ++ rest → Reaches c₂ .comma q r)
    (hnext : rankOf rest ≤ Level.comma.rank) :
    Reaches c level (p ++ sign :: q) (.assign l (stored (BinaryOp.ofKind? sign.kind) l r) .nowhere) := by
  have hrank : rankOf (sign :: (q ++ rest)) = Level.assignment.rank :=
    congrArg Level.rank (sign_of_assignment hk).1
  refine hl.step hc (hrank ▸ hlevel) (by simp) fun left c₁ hleft hm₁ hc₁ => ?_
  refine continuation_takes_assignment hc₁ hk hleft fun c₂ hm₂ => ?_
  exact behind_reaches hr hnext (hm₁.trans hm₂) (by simp) (hm₂.lexemes_rest (p := [sign]) hc₁)

theorem Reaches.binary {sign : Lexeme} {r : Expr} {op : BinaryOp} (hl : Reaches c level p l)
    (hc : c.lexemes = p ++ sign :: (q ++ rest))
    (hk : Grammar.standard.continuation? sign.kind = some .binary)
    (hop : BinaryOp.ofKind? sign.kind = some op)
    (hlevel : level.rank < (Grammar.standard.level sign.kind).rank)
    (hr : ∀ c₂ : Cursor, c₂.lexemes = q ++ rest → Reaches c₂ (Grammar.standard.level sign.kind) q r)
    (hnext : rankOf rest ≤ (Grammar.standard.level sign.kind).rank) :
    Reaches c level (p ++ sign :: q) (.binary op l r .nowhere) := by
  refine hl.step hc hlevel (by simp) fun left c₁ hleft hm₁ hc₁ => ?_
  refine continuation_takes_binary hc₁ hk hop hleft fun c₂ hm₂ => ?_
  exact behind_reaches hr hnext (hm₁.trans hm₂) (by simp) (hm₂.lexemes_rest (p := [sign]) hc₁)

theorem Reaches.convert {sign word : Lexeme} {type : NumType} (hl : Reaches c level p l)
    (hc : c.lexemes = p ++ sign :: word :: rest) (hsign : sign.kind = .asWord)
    (hword : word.kind = .identifier) (htype : NumType.ofName? word.value = some type)
    (hlevel : level.rank < Level.unary.rank) :
    Reaches c level (p ++ [sign, word]) (.convert l none type .nowhere) := by
  have hrank : rankOf (sign :: word :: rest) = Level.unary.rank := Lexeme.rankOf_cons hsign _
  exact hl.step hc (hrank ▸ hlevel) (by simp) fun left c₁ hleft _ hc₁ =>
    continuation_takes_conversion hc₁ hsign hword htype hleft

theorem Reaches.update {sign : Lexeme} {op : UpdateOp} {target : String}
    (hl : Reaches c level p (.var target .nowhere)) (hc : c.lexemes = p ++ sign :: rest)
    (hop : UpdateOp.ofKind? sign.kind = some op) (hlevel : level.rank < Level.call.rank) :
    Reaches c level (p ++ [sign]) (.update op target .nowhere .nowhere) := by
  have hrank : rankOf (sign :: rest) = Level.call.rank := by
    obtain ⟨hk, -⟩ | ⟨hk, -⟩ := UpdateOp.kind_of_ofKind? hop
    · exact Lexeme.rankOf_cons hk _
    · exact Lexeme.rankOf_cons hk _
  exact hl.step hc (hrank ▸ hlevel) (by simp) fun left c₁ hleft _ hc₁ =>
    continuation_takes_update hc₁ hop hleft

theorem Reaches.call {first last : Lexeme} {callee : String} {ts : List Expr}
    (hl : Reaches c level p (.var callee .nowhere)) (hc : c.lexemes = p ++ first :: (q ++ last :: rest))
    (hfirst : first.kind = .openParen) (hlast : last.kind = .closeParen)
    (hlevel : level.rank < Level.call.rank)
    (hq : ∀ (c₂ : Cursor) message, c₂.remaining < c.remaining → c₂.lexemes = q ++ last :: rest →
      Takes (commaList (exprBehind c .comma) message) c₂ q (unplacedExprs · = ts)) :
    Reaches c level (p ++ first :: (q ++ [last])) (.call callee ts .nowhere) := by
  have hrank : rankOf (first :: (q ++ last :: rest)) = Level.call.rank := Lexeme.rankOf_cons hfirst _
  refine hl.step hc (hrank ▸ hlevel) (by simp) fun left c₁ hleft hm₁ hc₁ => ?_
  refine continuation_takes_call hc₁ hfirst hlast hleft fun c₂ message hm₂ => ?_
  exact hq c₂ message ((hm₁.trans hm₂).remaining_lt (by simp)) (hm₂.lexemes_rest (p := [first]) hc₁)

end Reading

namespace Stratum

/-- The rank of the weakest operators of a stratum. -/
def rank : Stratum → Nat
  | expression => 2
  | logical => 3
  | relational => 4
  | additive => 5
  | multiplicative => 6
  | conversion => 7
  | unary | applied | atom => 8

/-- How strongly a token after an expression of the stratum may bind and still not become part of it. -/
def bound : Stratum → Nat
  | expression => 1
  | logical => 3
  | relational => 4
  | additive => 5
  | multiplicative => 6
  | conversion | unary => 7
  | applied | atom => 8

variable {σ τ : Stratum}

theorem rank_le_of_tighter (h : σ.tighter? = some τ) : σ.rank ≤ τ.rank ∧ σ.bound ≤ τ.bound := by
  cases σ <;> cases h <;> decide

theorem rank_lt_of_tighter (h : σ.tighter? = some τ) (hσ : σ.rank ≤ 6) : σ.rank < τ.rank := by
  cases σ <;> cases h <;> revert hσ <;> decide

theorem sign_of_stratum {k : Kind} {op : BinaryOp} (h : BinaryOp.stratum? k = some (σ, op)) :
    Grammar.standard.continuation? k = some .binary ∧ BinaryOp.ofKind? k = some op ∧
      (Grammar.standard.level k).rank = σ.rank ∧ σ.bound = σ.rank ∧ σ.rank ≤ 6 := by
  cases k <;> cases h <;> decide

theorem sign_of_compound {k : Kind} {op : BinaryOp} (h : BinaryOp.ofCompound? k = some op) :
    Grammar.standard.continuation? k = some .assignment ∧ BinaryOp.ofKind? k = some op ∧
      (Grammar.standard.level k).rank ≤ 3 := by
  cases k <;> cases h <;> decide

end Stratum

open Reading

theorem Names.reaches {p rest : List Lexeme} {name : String} (h : Names p name) {c : Cursor}
    (hc : c.lexemes = p ++ rest) (level : Level) : Reaches c level p (.var name .nowhere) := by
  induction h generalizing c rest level with
  | word hword => exact .of_opening (opening_takes_word hc (.inr (.inr (.inr ⟨hword, rfl⟩))))
  | @group p name first last hfirst hlast _ ih =>
    have hc' : c.lexemes = first :: (p ++ last :: rest) := by simpa using hc
    refine .of_opening (opening_takes_group hc' hfirst hlast fun c₁ hm => ?_)
    have hc₁ := hm.lexemes_rest (p := [first]) hc'
    refine behind_reaches (fun c₂ hc₂ => ih hc₂ .weakest) ?_ hm (by simp) hc₁
    rw [Lexeme.rankOf_cons hlast]
    decide

theorem Derives.ne_nil {σ : Stratum} {p : List Lexeme} {t : Expr} (h : Derives σ p t) : p ≠ [] := by
  obtain ⟨first, rest, rfl, -⟩ := h.begins
  simp

/-- No token before an expression is of a kind that does not begin one. -/
theorem Derives.kind_ne {σ : Stratum} {p rest : List Lexeme} {t : Expr} (h : Derives σ p t) {c : Cursor}
    (hc : c.lexemes = p ++ rest) {k : Kind} (hk : k.begins = false) : c.kind ≠ k := by
  obtain ⟨first, p, rfl, hfirst⟩ := h.begins
  rw [Cursor.kind_of_lexemes hc]
  rintro rfl
  rw [hk] at hfirst
  cases hfirst

mutual

/-- What the grammar derives is reached. -/
theorem Derives.reaches {σ : Stratum} {p rest : List Lexeme} {t : Expr} (h : Derives σ p t) {c : Cursor}
    (hc : c.lexemes = p ++ rest) {level : Level} (hlevel : level.rank < σ.rank)
    (hnext : rankOf rest ≤ σ.bound) : Reaches c level p t := by
  match h with
  | .tighter hσ ht =>
    obtain ⟨hrank, hbound⟩ := Stratum.rank_le_of_tighter hσ
    exact ht.reaches hc (Nat.lt_of_lt_of_le hlevel hrank) (Nat.le_trans hnext hbound)
  | @Derives.assign p q l r sign hsign hl hr =>
    have hc' : c.lexemes = p ++ sign :: (q ++ rest) := by simpa using hc
    have hrank : rankOf (sign :: (q ++ rest)) ≤ 3 := by
      rw [Lexeme.rankOf_cons hsign]
      decide
    have hleft : Reaches c level p l := hl.reaches hc' (Nat.lt_succ_of_lt hlevel) hrank
    have hboth := hleft.assign hc' (by rw [hsign]; rfl) hlevel
      (fun c₂ hc₂ => hr.reaches hc₂ (by decide) hnext) hnext
    rw [hsign] at hboth
    exact hboth
  | @Derives.compound p q l r sign op hsign hl hr =>
    obtain ⟨hway, hop, hlow⟩ := Stratum.sign_of_compound hsign
    have hc' : c.lexemes = p ++ sign :: (q ++ rest) := by simpa using hc
    have hleft : Reaches c level p l := hl.reaches hc' (Nat.lt_succ_of_lt hlevel) hlow
    have hboth := hleft.assign hc' hway hlevel (fun c₂ hc₂ => hr.reaches hc₂ (by decide) hnext) hnext
    rw [hop] at hboth
    exact hboth
  | @Derives.binary σ τ p q l r sign op hsign hσ hl hr =>
    obtain ⟨hway, hop, hrank, hbound, hsix⟩ := Stratum.sign_of_stratum hsign
    have hc' : c.lexemes = p ++ sign :: (q ++ rest) := by simpa using hc
    have hleft : Reaches c level p l := hl.reaches hc' hlevel (by rw [hbound, ← hrank]; exact Nat.le_refl _)
    rw [hbound, ← hrank] at hnext
    refine hleft.binary hc' hway hop (hrank ▸ hlevel) (fun c₂ hc₂ => hr.reaches hc₂ ?_ ?_) hnext
    · rw [hrank]
      exact Stratum.rank_lt_of_tighter hσ hsix
    · rw [hrank, ← hbound] at hnext
      exact Nat.le_trans hnext (Stratum.rank_le_of_tighter hσ).2
  | @Derives.convert p t sign word type hp hsign hword htype =>
    have hc' : c.lexemes = p ++ sign :: word :: rest := by simpa using hc
    have hrank : rankOf (sign :: word :: rest) ≤ 7 := by
      rw [Lexeme.rankOf_cons hsign]
      decide
    exact (hp.reaches hc' hlevel hrank).convert hc' hsign hword htype hlevel
  | @Derives.unary p t sign op hsign hp =>
    refine .of_opening (opening_takes_sign hc hsign fun c₁ hm => ?_)
    exact behind_reaches (fun c₂ hc₂ => hp.reaches hc₂ (by decide) hnext) hnext hm (by simp)
      (hm.lexemes_rest (p := [sign]) hc)
  | @Derives.call p q callee arguments first last hp hfirst hq hlast =>
    have hc' : c.lexemes = p ++ first :: (q ++ last :: rest) := by simpa using hc
    exact (hp.reaches hc' level).call hc' hfirst hlast hlevel fun c₂ message hlt hc₂ =>
      hq.takes message hlt hc₂ hlast
  | @Derives.update p target sign op hp hsign =>
    have hc' : c.lexemes = p ++ sign :: rest := by simpa using hc
    exact (hp.reaches hc' level).update hc' hsign hlevel
  | .number hword hvalue => exact .of_opening (opening_takes_word hc (.inl ⟨_, hword, hvalue, rfl⟩))
  | .trueWord hword => exact .of_opening (opening_takes_word hc (.inr (.inl ⟨hword, rfl⟩)))
  | .falseWord hword => exact .of_opening (opening_takes_word hc (.inr (.inr (.inl ⟨hword, rfl⟩))))
  | .name hword => exact .of_opening (opening_takes_word hc (.inr (.inr (.inr ⟨hword, rfl⟩))))
  | @Derives.group p t first last hfirst hp hlast =>
    have hc' : c.lexemes = first :: (p ++ last :: rest) := by simpa using hc
    have hstop : rankOf (last :: rest) = 0 := Lexeme.rankOf_cons hlast _
    refine .of_opening (opening_takes_group hc' hfirst hlast fun c₁ hm => ?_)
    refine behind_reaches (fun c₂ hc₂ => hp.reaches hc₂ (by decide) ?_) ?_ hm (by simp)
      (hm.lexemes_rest (p := [first]) hc')
    · rw [hstop]
      exact Nat.zero_le _
    · rw [hstop]
      exact Nat.zero_le _

/-- The arguments of a call behind a cursor are taken. -/
theorem DerivesArguments.takes {q rest : List Lexeme} {ts : List Expr} (h : DerivesArguments q ts)
    {c c₁ : Cursor} (message : String) (hbehind : c₁.remaining < c.remaining)
    (hc₁ : c₁.lexemes = q ++ rest) (hrest : Lexeme.firstKind rest = .closeParen) :
    Takes (commaList (exprBehind c .comma) message) c₁ q (unplacedExprs · = ts) := by
  rw [commaList_eq]
  match h with
  | .none =>
    have hk : c₁.kind = .closeParen := by
      rw [Cursor.kind_eq, hc₁]
      exact hrest
    exact (many_takes_nil _ hk).imp fun ts hts => by rw [hts]; rfl
  | .last hp =>
    have hstop : rankOf rest = 0 := by
      rw [rankOf, hrest]
      rfl
    have hreach : Reaches c₁ .comma q _ := hp.reaches hc₁ (by decide) (by rw [hstop]; exact Nat.zero_le _)
    have hrun := hreach.argument_takes hbehind hc₁ hstop
    refine (many_takes_cons (q := []) (hp.kind_ne hc₁ rfl) hp.ne_nil (listItem_takes_last hrun message hc₁ hrest)
      fun c₂ hm => many_takes_nil _ ?_).imp ?_
    · rw [Cursor.kind_eq, hm.lexemes_rest hc₁]
      exact hrest
    · rintro _ ⟨a, _, rfl, ha, rfl⟩
      rw [unplacedExprs, ha]
      rfl
  | @DerivesArguments.more p q t ts comma hp hcomma hq =>
    have hc' : c₁.lexemes = p ++ comma :: (q ++ rest) := by simpa using hc₁
    have hstop : rankOf (comma :: (q ++ rest)) = 0 := Lexeme.rankOf_cons hcomma _
    have hreach : Reaches c₁ .comma p t := hp.reaches hc' (by decide) (by rw [hstop]; exact Nat.zero_le _)
    have hrun := hreach.argument_takes hbehind hc' hstop
    have htail : ∀ c₂, c₁.Moves (p ++ [comma]) c₂ →
        Takes (many .closeParen (listItem (exprBehind c .comma) message)) c₂ q (unplacedExprs · = ts) := by
      intro c₂ hm
      have hlt : c₂.remaining < c.remaining := Nat.lt_trans (hm.remaining_lt (by simp)) hbehind
      exact hq.takes message hlt (hm.lexemes_rest (by simpa using hc')) hrest
    refine (many_takes_cons (hp.kind_ne hc' rfl) (by simp) (listItem_takes_comma hrun message hc' hcomma)
      htail).imp ?_
    rintro _ ⟨a, as, rfl, ha, has⟩
    rw [unplacedExprs, ha, has]

end

/-- An expression is read up to a token that does not lengthen it. -/
theorem Derives.takes {p rest : List Lexeme} {t : Expr} (h : Derives .expression p t) {c : Cursor}
    (hc : c.lexemes = p ++ rest) (hrest : rankOf rest = 0) :
    Takes (expr .standard .weakest) c p (·.unplaced = t) :=
  (h.reaches hc (by decide) (by rw [hrest]; exact Nat.zero_le _)).expr_takes hc (Nat.le_of_eq hrest)

end Numlet
