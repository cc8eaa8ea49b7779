import Numlet.Proofs.Tree.Moves
import Numlet.Proofs.Tree.Strata

/-!
What the reading of an expression accepts, the grammar derives. The reading stops before the first operator
that binds no more strongly than its level, so what it has read lies in the stratum above the level.
-/
namespace Numlet

/-- How strongly the next token binds to what stands before it. -/
def Cursor.rank (c : Cursor) : Nat := (Grammar.standard.level c.kind).rank

namespace Reading

variable {c c' : Cursor} {t left : Expr} {e : ExprReader} {q : List Lexeme}

/-- A reader of expressions gives what the lexemes that it passes derive. -/
def Sound (e : ExprReader) : Prop :=
  ∀ ⦃level : Level⦄ ⦃c : Cursor⦄ ⦃t : Expr⦄ ⦃c' : Cursor⦄, e level c = .ok t c' →
    ∃ p, c.Moves p c' ∧ Derives (.ofRank (level.rank + 1)) p t.unplaced ∧ c'.rank ≤ level.rank

theorem primary_derives (h : primary c = .ok t c') : ∃ p, c.Moves p c' ∧ Derives .atom p t.unplaced := by
  obtain ⟨_, _, hget, h⟩ := bind_eq_ok.mp h
  obtain ⟨rfl, rfl⟩ := get_eq_ok.mp hget
  have htake : ∀ {f : Token → Expr}, c.kind ≠ .eof → (do return f (← take)) c = .ok t c' →
      t = f c.current ∧ c.Moves [c.current.lexeme] c' := by
    intro f hk h
    cases h
    exact ⟨rfl, Cursor.moves_advance hk⟩
  have hkind : c.current.kind = c.kind := rfl
  cases hk : c.current.kind with
  | number =>
    rw [hk] at h
    cases hv : literal? c.current.value with
    | none =>
      rw [hv] at h
      cases h
    | some value =>
      rw [hv] at h
      obtain ⟨rfl, hm⟩ := htake (by simp [← hkind, hk]) h
      exact ⟨_, hm, .number hk hv⟩
  | trueWord =>
    rw [hk] at h
    obtain ⟨rfl, hm⟩ := htake (by simp [← hkind, hk]) h
    exact ⟨_, hm, .trueWord hk⟩
  | falseWord =>
    rw [hk] at h
    obtain ⟨rfl, hm⟩ := htake (by simp [← hkind, hk]) h
    exact ⟨_, hm, .falseWord hk⟩
  | identifier =>
    rw [hk] at h
    obtain ⟨rfl, hm⟩ := htake (f := fun u => .var c.current.value u.span) (by simp [← hkind, hk]) h
    exact ⟨_, hm, .name hk⟩
  | _ =>
    rw [hk] at h
    cases h

theorem unary_derives (he : Sound e) (hk : c.kind = .dash ∨ c.kind = .not ∨ c.kind = .plus)
    (h : unary e c = .ok t c') : ∃ p, c.Moves p c' ∧ Derives .unary p t.unplaced := by
  obtain ⟨sign, c₁, htake, h⟩ := bind_eq_ok.mp h
  obtain ⟨hsign, hm₁⟩ := take_moves (by rcases hk with hk | hk | hk <;> simp [hk]) htake
  obtain ⟨operand, c₂, hrun, h⟩ := bind_eq_ok.mp h
  obtain ⟨p, hm₂, hp, -⟩ := he hrun
  cases h
  refine ⟨_, hm₁.trans hm₂, ?_⟩
  rw [← hsign] at hk
  obtain hk | hk | hk := hk
  · rw [Expr.unplaced, hk]
    exact .unary (congrArg UnaryOp.ofKind? hk) hp
  · rw [Expr.unplaced, hk]
    exact .unary (congrArg UnaryOp.ofKind? hk) hp
  · rw [Expr.unplaced, hk]
    exact .unary (congrArg UnaryOp.ofKind? hk) hp

theorem group_derives (he : Sound e) (hk : c.kind = .openParen) (h : group e c = .ok t c') :
    ∃ p, c.Moves p c' ∧ Derives .atom p t.unplaced := by
  obtain ⟨first, c₁, htake, h⟩ := bind_eq_ok.mp h
  obtain ⟨hfirst, hm₁⟩ := take_moves (by simp [hk]) htake
  obtain ⟨inner, c₂, hrun, h⟩ := bind_eq_ok.mp h
  obtain ⟨p, hm₂, hp, -⟩ := he hrun
  obtain ⟨last, c₃, hexpect, h⟩ := bind_eq_ok.mp h
  obtain ⟨hlast, hm₃⟩ := expect_moves (by simp) hexpect
  cases h
  exact ⟨_, hm₁.trans (hm₂.trans hm₃), .group (hfirst.trans hk) hp hlast⟩

/-- An expression begins with an atom or a sign. -/
theorem opening_derives (he : Sound e) (h : opening .standard e c = .ok t c') :
    ∃ p, c.Moves p c' ∧ Derives .unary p t.unplaced := by
  obtain ⟨kind, c₁, hget, h⟩ := bind_eq_ok.mp h
  cases hget
  have hprimary : primary c = .ok t c' → ∃ p, c.Moves p c' ∧ Derives .unary p t.unplaced := by
    intro h
    obtain ⟨p, hm, hp⟩ := primary_derives h
    exact ⟨p, hm, hp.of_atom⟩
  cases hk : c.kind with
  | number | identifier | trueWord | falseWord =>
    rw [hk] at h
    exact hprimary h
  | dash | not | plus =>
    rw [hk] at h
    exact unary_derives he (by simp [hk]) h
  | openParen =>
    rw [hk] at h
    obtain ⟨p, hm, hp⟩ := group_derives he hk h
    exact ⟨p, hm, hp.of_atom⟩
  | _ =>
    rw [hk] at h
    cases h

/-- The items of an argument list, up to the closing parenthesis. -/
theorem arguments_derive (he : Sound e) {message : String} {ts : List Expr}
    (h : commaList (e .comma) message c = .ok ts c') :
    ∃ p, c.Moves p c' ∧ DerivesArguments p (unplacedExprs ts) := by
  rw [commaList_eq] at h
  fun_induction many .closeParen (listItem (e .comma) message) c generalizing ts with
  | case1 c hk =>
    cases h
    exact ⟨[], .refl _, .none⟩
  | case2 | case3 | case5 => cases h
  | case4 c hk a c₂ hitem hlt as c₃ hrest ih =>
    cases h
    obtain ⟨q, hm₂, hq⟩ := ih hrest
    obtain ⟨c₁, hrun, ⟨hcomma, rfl⟩ | ⟨hclose, rfl⟩⟩ := listItem_eq_ok hitem
    · obtain ⟨p, hm₁, hp, -⟩ := he hrun
      have hmove := hm₁.trans ((Cursor.moves_advance (by simp [hcomma])).trans hm₂)
      exact ⟨_, hmove, .more hp hcomma hq⟩
    · -- Without a comma the list is at its end.
      obtain ⟨p, hm₁, hp, -⟩ := he hrun
      rw [many, if_pos hclose] at hrest
      cases hrest
      exact ⟨p, hm₁, .last hp⟩

/-- An expression that has been read up to a cursor: it lies in a stratum, and the next token does not bind
more strongly than the operators of the stratum, unless it is one that only a name can have after it. -/
structure Stretch (rank : Nat) (q : List Lexeme) (t : Expr) (c : Cursor) : Prop where
  derives : Derives (.ofRank rank) q t.unplaced
  next : c.rank ≤ rank ∨ c.rank = Level.call.rank
  /-- Assignments group to the right, so none follows another one. -/
  assigned : rank ≤ Level.assignment.rank → c.rank ≤ Level.comma.rank

theorem rank_le_call (c : Cursor) : c.rank ≤ Level.call.rank := by
  unfold Cursor.rank
  cases c.kind <;> decide

theorem Stretch.of_unary (h : Derives .unary q t.unplaced) (c : Cursor) : Stretch 10 q t c where
  derives := h.of_unary 10
  next := .inl (Nat.le_trans (rank_le_call c) (by decide))
  assigned hle := absurd hle (by decide)

/-- The left operand of an operator at the cursor. -/
theorem Stretch.operand {rank : Nat} (h : Stretch rank q t c) (hk : c.rank ≠ Level.call.rank) :
    Derives (.ofRank c.rank) q t.unplaced := h.derives.loosen (h.next.resolve_right hk)

/-- What is assigned to. -/
theorem Stretch.target {rank : Nat} (h : Stretch rank q t c) (hk : c.rank = Level.assignment.rank) :
    Derives .logical q t.unplaced := by
  have hrank : 3 ≤ rank := by
    have hnext := h.next
    have hassigned := h.assigned
    rw [hk] at hnext hassigned
    simp only [Level.rank] at hnext hassigned
    omega
  exact h.derives.loosen hrank

theorem sign_of_assignment {k : Kind} (h : Grammar.standard.continuation? k = some .assignment) :
    Grammar.standard.level k = .assignment ∧ (k = .assignment ∧ BinaryOp.ofKind? k = none ∨
      ∃ op, BinaryOp.ofCompound? k = some op ∧ BinaryOp.ofKind? k = some op) := by
  cases k <;> first
    | exact ⟨rfl, .inl ⟨rfl, rfl⟩⟩
    | exact ⟨rfl, .inr ⟨_, rfl, rfl⟩⟩
    | cases h

theorem sign_of_binary {k : Kind} (h : Grammar.standard.continuation? k = some .binary) :
    ∃ op, BinaryOp.ofKind? k = some op ∧
      BinaryOp.stratum? k = some (.ofRank (Grammar.standard.level k).rank, op) ∧
      (Stratum.ofRank (Grammar.standard.level k).rank).tighter? =
        some (.ofRank ((Grammar.standard.level k).rank + 1)) ∧
      3 ≤ (Grammar.standard.level k).rank ∧ (Grammar.standard.level k).rank ≤ 6 := by
  cases k <;> first
    | exact ⟨_, rfl, rfl, rfl, by decide, by decide⟩
    | cases h

theorem sign_of_update {k : Kind} (h : Grammar.standard.continuation? k = some .update) :
    ∃ op, UpdateOp.ofKind? k = some op := by
  cases k <;> first
    | exact ⟨_, rfl⟩
    | cases h

theorem continuation?_eq_conversion {k : Kind} :
    Grammar.standard.continuation? k = some .conversion ↔ k = .asWord := by
  cases k <;> decide

theorem continuation?_eq_call {k : Kind} :
    Grammar.standard.continuation? k = some .call ↔ k = .openParen := by
  cases k <;> decide

theorem assignment_derives (he : Sound e) {rank : Nat} (hl : Stretch rank q left c)
    (hk : Grammar.standard.continuation? c.kind = some .assignment)
    (h : assignment e left c = .ok t c') :
    ∃ p, c.Moves p c' ∧ p ≠ [] ∧ Stretch Level.assignment.rank (q ++ p) t c' := by
  obtain ⟨hlevel, hsigns⟩ := sign_of_assignment hk
  have hrank : c.rank = Level.assignment.rank := congrArg Level.rank hlevel
  obtain ⟨sign, c₁, htake, h⟩ := bind_eq_ok.mp h
  obtain ⟨hsign, hm₁⟩ := take_moves (fun hend => by rw [hend] at hk; cases hk) htake
  obtain ⟨right, c₂, hrun, h⟩ := bind_eq_ok.mp h
  obtain ⟨p, hm₂, hp, hnext⟩ := he hrun
  have hstretch : ∀ t : Expr, Derives .expression (q ++ ([sign.lexeme] ++ p)) t.unplaced →
      Stretch Level.assignment.rank (q ++ ([sign.lexeme] ++ p)) t c₂ :=
    fun t ht => ⟨ht, .inl (Nat.le_trans hnext (by decide)), fun _ => hnext⟩
  rw [← hsign] at hsigns
  obtain ⟨hassign, hop⟩ | ⟨op, hcompound, hop⟩ := hsigns
  · simp only [hop] at h
    cases h
    exact ⟨_, hm₁.trans hm₂, by simp, hstretch _ (.assign hassign (hl.target hrank) hp)⟩
  · simp only [hop] at h
    cases h
    exact ⟨_, hm₁.trans hm₂, by simp, hstretch _ (.compound hcompound (hl.target hrank) hp)⟩

theorem binary_derives (he : Sound e) {rank : Nat} (hl : Stretch rank q left c)
    (hk : Grammar.standard.continuation? c.kind = some .binary)
    (h : binary e left (Grammar.standard.level c.kind) c = .ok t c') :
    ∃ p, c.Moves p c' ∧ p ≠ [] ∧ Stretch c.rank (q ++ p) t c' := by
  obtain ⟨op, hop, hstratum, htighter, hlow, hhigh⟩ := sign_of_binary hk
  change 3 ≤ c.rank at hlow
  change c.rank ≤ 6 at hhigh
  obtain ⟨sign, c₁, htake, h⟩ := bind_eq_ok.mp h
  obtain ⟨hsign, hm₁⟩ := take_moves (fun hend => by rw [hend] at hk; cases hk) htake
  rw [← hsign] at hop
  simp only [hop] at h
  obtain ⟨right, c₂, hrun, h⟩ := bind_eq_ok.mp h
  obtain ⟨p, hm₂, hp, hnext⟩ := he hrun
  cases h
  have hleft := hl.operand (by simp only [Level.rank]; omega)
  refine ⟨_, hm₁.trans hm₂, by simp, ?_, .inl hnext, fun hle => ?_⟩
  · exact .binary ((congrArg BinaryOp.stratum? hsign).trans hstratum) htighter hleft hp
  · simp only [Level.rank] at hle
    omega

theorem numType_moves {type : NumType} (h : numType c = .ok type c') :
    ∃ word : Lexeme, c.Moves [word] c' ∧ word.kind = .identifier ∧ NumType.ofName? word.value = some type := by
  obtain ⟨word, c₁, hexpect, h⟩ := bind_eq_ok.mp h
  obtain ⟨hword, hm⟩ := expectOr_moves (by simp) hexpect
  cases htype : NumType.ofName? word.value with
  | none =>
    rw [htype] at h
    cases h
  | some found =>
    rw [htype] at h
    cases h
    exact ⟨word.lexeme, hm, hword, htype⟩

theorem conversion_derives {rank : Nat} (hl : Stretch rank q left c) (hk : c.kind = .asWord)
    (h : conversion left c = .ok t c') :
    ∃ p, c.Moves p c' ∧ p ≠ [] ∧ Stretch Level.unary.rank (q ++ p) t c' := by
  obtain ⟨sign, c₁, htake, h⟩ := bind_eq_ok.mp h
  obtain ⟨hsign, hm₁⟩ := take_moves (by simp [hk]) htake
  obtain ⟨type, c₂, hrun, h⟩ := bind_eq_ok.mp h
  obtain ⟨word, hm₂, hword, htype⟩ := numType_moves hrun
  cases h
  have hrank : c.rank = 7 := by rw [Cursor.rank, hk]; rfl
  have hleft := hl.operand (by simp [hrank, Level.rank])
  rw [hrank] at hleft
  have hle := rank_le_call c'
  simp only [Level.rank] at hle
  refine ⟨_, hm₁.trans hm₂, by simp, ?_, ?_, fun hle => absurd hle (by decide)⟩
  · exact .convert hleft (hsign.trans hk) hword htype
  · simp only [Level.rank]
    omega

theorem call_derives (he : Sound e) {rank : Nat} (hl : Stretch rank q left c) (hk : c.kind = .openParen)
    (h : call e left c = .ok t c') :
    ∃ p, c.Moves p c' ∧ p ≠ [] ∧ Stretch 10 (q ++ p) t c' := by
  cases left with
  | var callee span =>
    obtain ⟨first, c₁, htake, h⟩ := bind_eq_ok.mp h
    obtain ⟨hfirst, hm₁⟩ := take_moves (by simp [hk]) htake
    obtain ⟨arguments, c₂, hrun, h⟩ := bind_eq_ok.mp h
    obtain ⟨p, hm₂, hp⟩ := arguments_derive he hrun
    obtain ⟨last, c₃, hexpect, h⟩ := bind_eq_ok.mp h
    obtain ⟨hlast, hm₃⟩ := expect_moves (by simp) hexpect
    cases h
    have hname : Names q callee := hl.derives.names rfl
    refine ⟨_, hm₁.trans (hm₂.trans hm₃), by simp, .of_unary (.of_applied ?_) _⟩
    exact .call hname (hfirst.trans hk) hp hlast
  | literal | binary | unary | update | assign | convert | call => cases h

theorem update_derives {rank : Nat} (hl : Stretch rank q left c) {op : UpdateOp}
    (hop : UpdateOp.ofKind? c.kind = some op) (h : update left c = .ok t c') :
    ∃ p, c.Moves p c' ∧ p ≠ [] ∧ Stretch 10 (q ++ p) t c' := by
  have hkind : (if c.kind = .plusPlus then UpdateOp.increment else UpdateOp.decrement) = op := by
    obtain ⟨hk, rfl⟩ | ⟨hk, rfl⟩ := UpdateOp.kind_of_ofKind? hop <;> rw [hk] <;> rfl
  obtain ⟨sign, c₁, htake, h⟩ := bind_eq_ok.mp h
  obtain ⟨hsign, hm₁⟩ := take_moves (fun hend => by rw [hend] at hop; cases hop) htake
  rw [hsign, hkind] at h
  cases left with
  | var target span =>
    cases h
    have hname : Names q target := hl.derives.names rfl
    refine ⟨_, hm₁, by simp, .of_unary (.of_applied ?_) _⟩
    exact .update hname ((congrArg UpdateOp.ofKind? hsign).trans hop)
  | literal | binary | unary | update | assign | convert | call => cases h

/-- One step lengthens a stretch. -/
theorem continuation_derives (he : Sound e) {rank : Nat} (hl : Stretch rank q left c)
    (h : continuation .standard e left c = .ok t c') :
    ∃ p, c.Moves p c' ∧ p ≠ [] ∧ ∃ n, c.rank ≤ n ∧ Stretch n (q ++ p) t c' := by
  obtain ⟨kind, c₁, hget, h⟩ := bind_eq_ok.mp h
  cases hget
  have hle := rank_le_call c
  cases hk : Grammar.standard.continuation? c.kind with
  | none =>
    simp only [hk] at h
    cases h
  | some way =>
    simp only [hk] at h
    cases way with
    | assignment =>
      obtain ⟨p, hm, hne, hs⟩ := assignment_derives he hl hk h
      exact ⟨p, hm, hne, _, Nat.le_of_eq (congrArg Level.rank (sign_of_assignment hk).1), hs⟩
    | binary =>
      obtain ⟨p, hm, hne, hs⟩ := binary_derives he hl hk h
      exact ⟨p, hm, hne, _, Nat.le_refl _, hs⟩
    | conversion =>
      have hword := continuation?_eq_conversion.mp hk
      obtain ⟨p, hm, hne, hs⟩ := conversion_derives hl hword h
      exact ⟨p, hm, hne, _, by rw [Cursor.rank, hword]; exact Nat.le_refl _, hs⟩
    | call =>
      obtain ⟨p, hm, hne, hs⟩ := call_derives he hl (continuation?_eq_call.mp hk) h
      exact ⟨p, hm, hne, _, Nat.le_trans hle (by decide), hs⟩
    | update =>
      obtain ⟨op, hop⟩ := sign_of_update hk
      obtain ⟨p, hm, hne, hs⟩ := update_derives hl hop h
      exact ⟨p, hm, hne, _, Nat.le_trans hle (by decide), hs⟩

/-- Climbing lengthens a stretch until the next operator binds no more strongly than the level. -/
theorem climb_derives (he : Sound e) {level : Level} {rank : Nat} (hl : Stretch rank q left c)
    (hrank : level.rank < rank) (h : climb .standard e level left c = .ok t c') :
    ∃ p, c.Moves p c' ∧ Derives (.ofRank (level.rank + 1)) (q ++ p) t.unplaced ∧
      c'.rank ≤ level.rank := by
  fun_induction climb .standard e level left c generalizing q rank with
  | case1 => cases h
  | case2 left c hlt longer c₁ hstep hdown ih =>
    obtain ⟨p₁, hm₁, -, n, hn, hs⟩ := continuation_derives he hl hstep
    obtain ⟨p₂, hm₂, hp, hstop⟩ := ih hs (Nat.lt_of_lt_of_le hlt hn) h
    rw [List.append_assoc] at hp
    exact ⟨p₁ ++ p₂, hm₁.trans hm₂, hp, hstop⟩
  | case3 => cases h
  | case4 left c hle =>
    cases h
    refine ⟨[], .refl _, ?_, Nat.le_of_not_lt hle⟩
    rw [List.append_nil]
    exact hl.derives.loosen hrank

theorem exprStep_derives (he : Sound e) : Sound (exprStep .standard e) := by
  intro level c t c' h
  obtain ⟨left, c₁, hopen, hclimb⟩ := bind_eq_ok.mp h
  obtain ⟨p₁, hm₁, hp₁⟩ := opening_derives he hopen
  have hrank : level.rank < 10 := by cases level <;> decide
  obtain ⟨p₂, hm₂, hp, hstop⟩ := climb_derives he (.of_unary hp₁ c₁) hrank hclimb
  exact ⟨p₁ ++ p₂, hm₁.trans hm₂, hp, hstop⟩

/-- The reading of the parts of an expression: they start behind a cursor. -/
def exprBehind (c : Cursor) : ExprReader := fun level c' =>
  if c'.remaining < c.remaining then expr .standard level c' else refuse c'

theorem expr_eq (level : Level) (c : Cursor) :
    expr .standard level c = exprStep .standard (exprBehind c) level c := by
  rw [expr]
  rfl

theorem exprBehind_of_lt {level : Level} (h : c'.remaining < c.remaining) :
    exprBehind c level c' = expr .standard level c' := if_pos h

/-- What the reading of an expression accepts, the grammar derives. -/
theorem expr_derives : Sound (expr .standard) := by
  intro level c
  generalize hn : c.remaining = n
  induction n using Nat.strongRecOn generalizing level c with
  | ind n ih =>
    have he : Sound (exprBehind c) := by
      intro level' c₁ t c₂ h
      unfold exprBehind at h
      split at h
      · next hlt => exact ih _ (hn ▸ hlt) rfl h
      · cases h
    intro t c' h
    rw [expr_eq] at h
    exact exprStep_derives he h

end Reading
end Numlet
