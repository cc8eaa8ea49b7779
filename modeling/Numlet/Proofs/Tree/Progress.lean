import Numlet.Proofs.Tree.ReadBack

/-!
Readings only move on, however they end, and one that is given the reading of parts uses it behind the tokens
that it has taken. So the bound on the parts of an expression or a statement, which makes the reading end, never
refuses anything: reading is the same without it.
-/
namespace Numlet

namespace Cursor

variable {c c' c'' : Cursor}

/-- One cursor is reached from another by moving past tokens. -/
inductive Onward (c : Cursor) : Cursor → Prop
  | here : Onward c c
  | advance {c' : Cursor} (h : Onward c c') : Onward c c'.advance

theorem Onward.trans (h₁ : c.Onward c') (h₂ : c'.Onward c'') : c.Onward c'' := by
  induction h₂ with
  | here => exact h₁
  | advance _ ih => exact .advance ih

theorem remaining_advance_le (c : Cursor) : c.advance.remaining ≤ c.remaining := by
  unfold Cursor.advance
  split
  · exact Nat.le_refl _
  · exact Nat.sub_le _ _

theorem remaining_advance_lt (h : c.kind ≠ .eof) : c.advance.remaining < c.remaining :=
  (moves_advance h).remaining_lt (List.cons_ne_nil _ _)

theorem Onward.remaining_le (h : c.Onward c') : c'.remaining ≤ c.remaining := by
  induction h with
  | here => exact Nat.le_refl _
  | @advance c' _ ih => exact Nat.le_trans c'.remaining_advance_le ih

end Cursor

namespace Reading

variable {α β : Type} {c c' : Cursor} {n : Nat} {m m' : Reading α} {k k' : α → Reading β}

/-- From a cursor two readings do the same, and they only move on. -/
structure SameAt (c : Cursor) (m m' : Reading α) : Prop where
  same : m c = m' c
  onward : c.Onward (finalState (m c))

/-- Two readings that succeed have passed a token. -/
structure Advances (c : Cursor) (m m' : Reading α) : Prop extends SameAt c m m' where
  past : ∀ a c', m c = .ok a c' → c'.remaining < c.remaining

/-- Two readings do the same with fewer than `n` tokens ahead. -/
def Tied (n : Nat) (m m' : Reading α) : Prop := ∀ c, c.remaining < n → SameAt c m m'

/-- Two readings start with any token and are tied behind it. -/
def Headed (n : Nat) (m m' : Reading α) : Prop :=
  ∃ k k', m = take >>= k ∧ m' = take >>= k' ∧ ∀ t, Tied n (k t) (k' t)

theorem SameAt.bind (h : SameAt c m m')
    (hk : ∀ a c', m c = .ok a c' → c.Onward c' → SameAt c' (k a) (k' a)) :
    SameAt c (m >>= k) (m' >>= k') := by
  obtain ⟨hsame, honward⟩ := h
  cases hm : m c with
  | ok a c' =>
    rw [hm] at honward hsame
    obtain ⟨hsame', honward'⟩ := hk a c' hm honward
    refine ⟨?_, ?_⟩
    · rw [bind_of_ok hm, bind_of_ok hsame.symm, hsame']
    · rw [bind_of_ok hm]
      exact honward.trans honward'
  | error d c' =>
    rw [hm] at honward hsame
    refine ⟨?_, ?_⟩
    · rw [bind_of_error hm, bind_of_error hsame.symm]
    · rw [bind_of_error hm]
      exact honward

namespace Tied

theorem mono {l : Nat} (h : Tied n m m') (hle : l ≤ n) : Tied l m m' :=
  fun c hc => h c (Nat.lt_of_lt_of_le hc hle)

theorem pure (a : α) : Tied n (pure a) (pure a) := fun _ _ => ⟨rfl, .here⟩

theorem throw (d : Diagnostic) : Tied n (throw d : Reading α) (throw d) := fun _ _ => ⟨rfl, .here⟩

theorem refuse : Tied n (refuse : Reading α) refuse := fun _ _ => ⟨rfl, .here⟩

theorem complain (message : String) : Tied n (complain message : Reading α) (complain message) :=
  fun _ _ => ⟨rfl, .here⟩

theorem get : Tied n (get : Reading Cursor) get := fun _ _ => ⟨rfl, .here⟩

theorem kind : Tied n kind kind := fun _ _ => ⟨rfl, .here⟩

theorem lastEnd : Tied n lastEnd lastEnd := fun _ _ => ⟨rfl, .here⟩

theorem take : Tied n take take := fun _ _ => ⟨rfl, .advance .here⟩

theorem bind (h : Tied n m m') (hk : ∀ a, Tied n (k a) (k' a)) : Tied n (m >>= k) (m' >>= k') :=
  fun c hc => (h c hc).bind fun a c' _ honward =>
    hk a c' (Nat.lt_of_le_of_lt honward.remaining_le hc)

theorem map (f : α → β) (h : Tied n m m') : Tied n (f <$> m) (f <$> m') := by
  intro c hc
  obtain ⟨hsame, honward⟩ := h c hc
  change SameAt c (EStateM.map f m) (EStateM.map f m')
  unfold EStateM.map
  cases hm : m c with
  | ok a c' | error d c' =>
    rw [hm] at honward hsame
    constructor
    · simp only [hm, ← hsame]
    · simp only [hm]
      exact honward

theorem ite {p : Prop} [Decidable p] {l l' : Reading α} (h : Tied n m m') (h' : Tied n l l') :
    Tied n (if p then m else l) (if p then m' else l') := by
  split
  · exact h
  · exact h'

/-- Readings that choose by the current kind. -/
theorem atKind (k : Kind) {l l' : Reading α} (h : Tied n m m') (h' : Tied n l l') :
    Tied n (fun c => if c.kind = k then m c else l c) (fun c => if c.kind = k then m' c else l' c) := by
  intro c hc
  by_cases hk : c.kind = k
  · obtain ⟨hsame, honward⟩ := h c hc
    exact ⟨by simp only [if_pos hk, hsame], by simp only [if_pos hk]; exact honward⟩
  · obtain ⟨hsame, honward⟩ := h' c hc
    exact ⟨by simp only [if_neg hk, hsame], by simp only [if_neg hk]; exact honward⟩

theorem expect (k : Kind) : Tied n (expect k) (expect k) := atKind k take refuse

theorem expectOr (k : Kind) (message : String) : Tied n (expectOr k message) (expectOr k message) :=
  atKind k take (complain message)

theorem passed (k : Kind) : Tied n (passed k) (passed k) := by
  intro c _
  refine ⟨rfl, ?_⟩
  unfold Reading.passed
  split
  · exact .advance .here
  · exact .here

theorem unlessAt (k : Kind) (h : Tied n m m') : Tied n (unlessAt k m) (unlessAt k m') :=
  atKind k (pure none) (map some h)

/-- The rounds of a loop come one behind the other. -/
theorem many (stop : Kind) (h : Tied n m m') : Tied n (many stop m) (many stop m') := by
  intro c hc
  suffices hrun : Reading.many stop m c = Reading.many stop m' c ∧
      c.Onward (finalState (Reading.many stop m c)) from ⟨hrun.1, hrun.2⟩
  fun_induction Reading.many stop m c with
  | case1 c hk =>
    rw [Reading.many, if_pos hk]
    exact ⟨rfl, .here⟩
  | case2 c hk d c' hrun =>
    obtain ⟨hsame, honward⟩ := h c hc
    rw [hrun] at hsame honward
    rw [Reading.many, if_neg hk, ← hsame]
    exact ⟨rfl, honward⟩
  | case3 c hk a c' hrun hlt _ c'' hmany ih | case4 c hk a c' hrun hlt _ c'' hmany ih =>
    obtain ⟨hsame, honward⟩ := h c hc
    rw [hrun] at hsame honward
    obtain ⟨hsame', honward'⟩ := ih (Nat.lt_trans hlt hc)
    rw [hmany] at hsame' honward'
    rw [Reading.many, if_neg hk, ← hsame]
    simp only [if_pos hlt, ← hsame']
    exact ⟨trivial, honward.trans honward'⟩
  | case5 c hk a c' hrun hle =>
    obtain ⟨hsame, honward⟩ := h c hc
    rw [hrun] at hsame honward
    rw [Reading.many, if_neg hk, ← hsame]
    simp only [if_neg hle]
    exact ⟨trivial, honward⟩

theorem listItem (message : String) (h : Tied n m m') :
    Tied n (listItem m message) (listItem m' message) := by
  refine h.bind fun a => (passed _).bind fun comma => ?_
  cases comma with
  | true => exact pure a
  | false => exact kind.bind fun k => ite ((complain message).bind fun _ => pure a) (pure a)

theorem commaList (message : String) (h : Tied n m m') :
    Tied n (commaList m message) (commaList m' message) := many _ (listItem message h)

theorem numType : Tied n numType numType := by
  refine (expectOr _ _).bind fun word => ?_
  cases NumType.ofName? word.value with
  | none => exact throw _
  | some type => exact pure type

theorem typeAfter (mark : Kind) : Tied n (typeAfter mark) (typeAfter mark) :=
  (passed mark).bind fun _ => ite (numType.bind fun type => pure (some type)) (pure none)

theorem spanFrom (t : Token) : Tied n (spanFrom t) (spanFrom t) := lastEnd.bind fun _ => pure _

/-- A part that is read if the mark before it is there. -/
theorem afterMark (mark : Kind) {f f' : Option α → Reading β} (h : Tied n m m')
    (hf : ∀ a, Tied n (f a) (f' a)) :
    Tied n
      (do
        let value ← if ← Reading.passed mark then some <$> m else Pure.pure none
        f value)
      (do
        let value ← if ← Reading.passed mark then some <$> m' else Pure.pure none
        f' value) :=
  (passed mark).bind fun _ => ite ((map some h).bind hf) ((pure none).bind hf)

end Tied

namespace Advances

theorem congr {l l' : Reading α} (h : m c = l c) (h' : m' c = l' c) (hl : Advances c l l') :
    Advances c m m' :=
  ⟨⟨h.trans (hl.same.trans h'.symm), h ▸ hl.onward⟩, fun a c' hrun => hl.past a c' (h.symm.trans hrun)⟩

/-- A reading that never succeeds here. -/
theorem of_error {d : Diagnostic} (h : m c = .error d c) : Advances c m m :=
  ⟨⟨rfl, by rw [h]; exact .here⟩, fun a c' hrun => by rw [h] at hrun; cases hrun⟩

theorem take (hk : c.kind ≠ .eof) : Advances c take take :=
  ⟨⟨rfl, .advance .here⟩, fun _ _ hrun => by
    obtain ⟨-, rfl⟩ := take_eq_ok hrun
    exact Cursor.remaining_advance_lt hk⟩

theorem bind (h : Advances c m m') (hk : ∀ a, Tied c.remaining (k a) (k' a)) :
    Advances c (m >>= k) (m' >>= k') := by
  have hsame : SameAt c (m >>= k) (m' >>= k') :=
    h.toSameAt.bind fun a c' hrun _ => hk a c' (h.past a c' hrun)
  refine ⟨hsame, fun b c' hrun => ?_⟩
  obtain ⟨a, c₁, hm, hrest⟩ := bind_eq_ok.mp hrun
  have hlt := h.past a c₁ hm
  have honward := (hk a c₁ hlt).onward
  rw [hrest] at honward
  exact Nat.lt_of_le_of_lt honward.remaining_le hlt

end Advances

theorem Headed.tied (h : Headed n m m') : Tied n m m' := by
  obtain ⟨k, k', rfl, rfl, hk⟩ := h
  exact Tied.take.bind hk

theorem Headed.advances (h : Headed c.remaining m m') (hc : c.kind ≠ .eof) : Advances c m m' := by
  obtain ⟨k, k', rfl, rfl, hk⟩ := h
  exact (Advances.take hc).bind hk

section Expressions

variable {e e' : ExprReader} {left : Expr}

/-- Readers of expressions that are tied at every level. -/
def TiedExprs (n : Nat) (e e' : ExprReader) : Prop := ∀ level, Tied n (e level) (e' level)

theorem TiedExprs.mono {l : Nat} (h : TiedExprs n e e') (hle : l ≤ n) : TiedExprs l e e' :=
  fun level => (h level).mono hle

theorem unary_headed (he : TiedExprs n e e') : Headed n (unary e) (unary e') :=
  ⟨_, _, rfl, rfl, fun _ => (he _).bind fun _ => .pure _⟩

theorem group_headed (he : TiedExprs n e e') : Headed n (group e) (group e') :=
  ⟨_, _, rfl, rfl, fun _ => (he _).bind fun _ => (Tied.expect _).bind fun _ => .pure _⟩

theorem binary_headed (he : TiedExprs n e e') (left : Expr) (level : Level) :
    Headed n (binary e left level) (binary e' left level) := by
  refine ⟨_, _, rfl, rfl, fun sign => ?_⟩
  cases BinaryOp.ofKind? sign.kind with
  | none => exact .throw _
  | some op => exact (he level).bind fun _ => .pure _

theorem assignment_headed (he : TiedExprs n e e') (left : Expr) :
    Headed n (assignment e left) (assignment e' left) := by
  refine ⟨_, _, rfl, rfl, fun sign => (he _).bind fun right => ?_⟩
  cases BinaryOp.ofKind? sign.kind with
  | none => exact .pure _
  | some op => exact .pure _

theorem call_headed (he : TiedExprs n e e') (callee : String) (span : Span) :
    Headed n (call e (.var callee span)) (call e' (.var callee span)) :=
  ⟨_, _, rfl, rfl, fun _ => (Tied.commaList _ (he _)).bind fun _ => (Tied.expect _).bind fun _ =>
    Tied.lastEnd.bind fun _ => .pure _⟩

theorem update_headed (left : Expr) : Headed n (update left) (update left) := by
  refine ⟨_, _, rfl, rfl, fun sign => ?_⟩
  cases left with
  | var target span => exact .pure _
  | literal | binary | unary | update | assign | convert | call => exact .throw _

theorem conversion_headed (left : Expr) : Headed n (conversion left) (conversion left) :=
  ⟨_, _, rfl, rfl, fun _ => Tied.numType.bind fun _ => Tied.lastEnd.bind fun _ => .pure _⟩

theorem primary_run (c : Cursor) : primary c =
    (match c.kind with
      | .number =>
        match literal? c.current.value with
        | some value => do return Expr.literal value (← take).span
        | none => throw (⟨.malformedNumber c.current.value, c.current.span.start⟩ : Diagnostic)
      | .trueWord => do return Expr.literal (.int 1) (← take).span
      | .falseWord => do return Expr.literal (.int 0) (← take).span
      | .identifier => do return Expr.var c.current.value (← take).span
      | _ => (refuse : Reading Expr)) c := rfl

theorem primary_advances (c : Cursor) : Advances c primary primary := by
  refine .congr (primary_run c) (primary_run c) ?_
  have htake (f : Token → Expr) (hk : c.kind ≠ .eof) :
      Advances c (do return f (← take)) (do return f (← take)) :=
    (Advances.take hk).bind fun _ => .pure _
  cases hk : c.kind with
  | number =>
    cases literal? c.current.value with
    | none => exact .of_error rfl
    | some value => exact htake (fun t => .literal value t.span) (by simp [hk])
  | trueWord => exact htake (fun t => .literal (.int 1) t.span) (by simp [hk])
  | falseWord => exact htake (fun t => .literal (.int 0) t.span) (by simp [hk])
  | identifier => exact htake (fun t => .var c.current.value t.span) (by simp [hk])
  | _ => exact .of_error rfl

/-- The first part of an expression takes a token. -/
theorem opening_advances (he : TiedExprs c.remaining e e') :
    Advances c (opening .standard e) (opening .standard e') := by
  refine .congr (opening_run e c) (opening_run e' c) ?_
  cases hk : c.kind with
  | number | identifier | trueWord | falseWord => exact primary_advances c
  | dash | plus | not => exact (unary_headed he).advances (by simp [hk])
  | openParen => exact (group_headed he).advances (by simp [hk])
  | _ => exact .of_error rfl

theorem kind_ne_eof_of_continuation {k : Kind} {way : Continuation}
    (h : Grammar.standard.continuation? k = some way) : k ≠ .eof := by
  rintro rfl
  cases h

/-- Each step to a longer expression takes a token. -/
theorem continuation_advances (he : TiedExprs c.remaining e e') (left : Expr) :
    Advances c (continuation .standard e left) (continuation .standard e' left) := by
  refine .congr (continuation_run e left c) (continuation_run e' left c) ?_
  cases hway : Grammar.standard.continuation? c.kind with
  | none => exact .of_error rfl
  | some way =>
    have hk := kind_ne_eof_of_continuation hway
    cases way with
    | assignment => exact (assignment_headed he left).advances hk
    | binary => exact (binary_headed he left _).advances hk
    | conversion => exact (conversion_headed left).advances hk
    | update => exact (update_headed left).advances hk
    | call =>
      cases left with
      | var callee span => exact (call_headed he callee span).advances hk
      | literal | binary | unary | update | assign | convert | call => exact .of_error rfl

theorem climb_same (he : TiedExprs c.remaining e e') (level : Level) (left : Expr) :
    SameAt c (climb .standard e level left) (climb .standard e' level left) := by
  suffices hrun : climb .standard e level left c = climb .standard e' level left c ∧
      c.Onward (finalState (climb .standard e level left c)) from ⟨hrun.1, hrun.2⟩
  fun_induction climb .standard e level left c with
  | case1 left c hlt d c' hrun =>
    obtain ⟨hsame, honward⟩ := (continuation_advances he left).toSameAt
    rw [hrun] at hsame honward
    rw [climb, if_pos hlt, ← hsame]
    exact ⟨rfl, honward⟩
  | case2 left c hlt longer c' hrun hdown ih =>
    obtain ⟨hsame, honward⟩ := (continuation_advances he left).toSameAt
    rw [hrun] at hsame honward
    obtain ⟨hsame', honward'⟩ := ih (he.mono (Nat.le_of_lt hdown))
    have hstep : climb .standard e' level left c = climb .standard e' level longer c' := by
      rw [climb, if_pos hlt, ← hsame]
      simp only [if_pos hdown]
    rw [hstep]
    exact ⟨hsame', honward.trans honward'⟩
  | case3 left c hlt longer c' hrun hle =>
    exact absurd ((continuation_advances he left).past _ _ hrun) hle
  | case4 left c hle =>
    rw [climb, if_neg hle]
    exact ⟨rfl, .here⟩

theorem exprStep_advances (he : TiedExprs c.remaining e e') (level : Level) :
    Advances c (exprStep .standard e level) (exprStep .standard e' level) :=
  (opening_advances he).bind fun left _ hlt => climb_same (he.mono (Nat.le_of_lt hlt)) level left

/-- The parts of an expression are read in the same way if nothing bounds them. -/
theorem expr_advances (level : Level) (c : Cursor) :
    Advances c (expr .standard level) (exprStep .standard (expr .standard) level) := by
  generalize hn : c.remaining = n
  induction n using Nat.strongRecOn generalizing level c with
  | ind n ih =>
    refine .congr (expr_eq level c) rfl (exprStep_advances (fun level' c' hlt => ?_) level)
    exact ⟨exprBehind_of_lt hlt, by
      rw [exprBehind_of_lt hlt]
      exact (ih _ (hn ▸ hlt) level' c' rfl).onward⟩

theorem expr_tied (n : Nat) : TiedExprs n (expr .standard) (expr .standard) :=
  fun level c _ => ⟨rfl, (expr_advances level c).onward⟩

end Expressions

section Statements

variable {s s' : Reading Stmt}

theorem expectOr_advances {k : Kind} (hk : k ≠ .eof) (message : String) (c : Cursor) :
    Advances c (expectOr k message) (expectOr k message) := by
  refine ⟨(Tied.expectOr k message) c (Nat.lt_succ_self _), fun t c' hrun => ?_⟩
  exact (expectOr_moves hk hrun).2.remaining_lt (List.cons_ne_nil _ _)

theorem parameter_advances (c : Cursor) : Advances c parameter parameter :=
  (expectOr_advances (by decide) _ c).bind fun name => (Tied.typeAfter _).bind fun _ =>
    (Tied.spanFrom name).bind fun _ => .pure _

theorem parameter_tied : Tied n parameter parameter :=
  fun c _ => (parameter_advances c).toSameAt

theorem declaration_headed : Headed n (declaration .standard) (declaration .standard) := by
  refine ⟨_, _, rfl, rfl, fun start => (Tied.expectOr _ _).bind fun name => ?_⟩
  refine (Tied.typeAfter _).bind fun _ => Tied.afterMark _ (expr_tied n _) fun value => ?_
  exact (Tied.expectOr _ _).bind fun _ => (Tied.spanFrom start).bind fun _ => .pure _

theorem branch_headed (hs : Tied n s s') : Headed n (branch .standard s) (branch .standard s') := by
  refine ⟨_, _, rfl, rfl, fun start => (expr_tied n _).bind fun _ => hs.bind fun _ => ?_⟩
  exact Tied.afterMark _ hs fun no => (Tied.spanFrom start).bind fun _ => .pure _

/-- One statement of a block, which must not be at its end. -/
def blockItem (s : Reading Stmt) : Reading Stmt := do
  if (← kind) = .eof then complain "unterminated block, expected `\x7d`"
  s

theorem blockItem_tied (hs : Tied n s s') : Tied n (blockItem s) (blockItem s') :=
  Tied.kind.bind fun _ => .ite ((Tied.complain _).bind fun _ => hs) hs

theorem blockItem_eq_ok {a : Stmt} (h : blockItem s c = .ok a c') : s c = .ok a c' := by
  obtain ⟨k, c₁, hkind, h⟩ := bind_eq_ok.mp h
  cases hkind
  by_cases hk : c.kind = .eof
  · rw [if_pos hk] at h
    cases h
  · rwa [if_neg hk] at h

theorem block_advances (hs : Tied c.remaining s s') : Advances c (block s) (block s') := by
  refine (expectOr_advances (by decide) _ c).bind fun start => ?_
  refine (Tied.many _ (blockItem_tied hs)).bind fun _ => (Tied.expect _).bind fun _ => ?_
  exact (Tied.spanFrom start).bind fun _ => .pure _

theorem block_tied (hs : Tied n s s') : Tied n (block s) (block s') :=
  fun _ hlt => (block_advances (hs.mono (Nat.le_of_lt hlt))).toSameAt

theorem function_headed (hs : Tied n s s') : Headed n (function s) (function s') := by
  refine ⟨_, _, rfl, rfl, fun start => (Tied.expectOr _ _).bind fun _ => (Tied.expect _).bind fun _ => ?_⟩
  refine (Tied.commaList _ parameter_tied).bind fun _ => (Tied.expect _).bind fun _ => ?_
  refine (Tied.typeAfter _).bind fun _ => (block_tied hs).bind fun _ => ?_
  exact (Tied.spanFrom start).bind fun _ => .pure _

theorem returning_headed : Headed n (returning .standard) (returning .standard) :=
  ⟨_, _, rfl, rfl, fun start => (Tied.unlessAt _ (expr_tied n _)).bind fun _ =>
    (Tied.expect _).bind fun _ => (Tied.spanFrom start).bind fun _ => .pure _⟩

theorem whileLoop_headed (hs : Tied n s s') :
    Headed n (whileLoop .standard s) (whileLoop .standard s') :=
  ⟨_, _, rfl, rfl, fun start => (expr_tied n _).bind fun _ => hs.bind fun _ =>
    (Tied.spanFrom start).bind fun _ => .pure _⟩

theorem expression_advances (c : Cursor) : Advances c (expression .standard) (expression .standard) := by
  have hexpr : Advances c (expr .standard .weakest) (expr .standard .weakest) :=
    ⟨⟨rfl, (expr_advances _ c).onward⟩, (expr_advances _ c).past⟩
  exact hexpr.bind fun _ => (Tied.expect _).bind fun _ => .pure _

theorem loopStart_tied : Tied n (loopStart .standard) (loopStart .standard) := by
  refine Tied.kind.bind fun k => ?_
  have hexpression : Tied n (expression .standard) (expression .standard) :=
    fun c _ => (expression_advances c).toSameAt
  split
  · exact Tied.take.bind fun _ => .pure _
  · exact .map _ declaration_headed.tied
  · exact .map _ hexpression

theorem forLoop_headed (hs : Tied n s s') : Headed n (forLoop .standard s) (forLoop .standard s') := by
  refine ⟨_, _, rfl, rfl, fun start => (Tied.expect _).bind fun _ => loopStart_tied.bind fun _ => ?_⟩
  refine (Tied.unlessAt _ (expr_tied n _)).bind fun _ => (Tied.expect _).bind fun _ => ?_
  refine (Tied.unlessAt _ (expr_tied n _)).bind fun _ => (Tied.expect _).bind fun _ => ?_
  exact hs.bind fun _ => (Tied.spanFrom start).bind fun _ => .pure _

/-- A jump, whichever it is. -/
theorem jump_headed {f : Span → Stmt} {m : Reading Stmt} (hm : m = take >>= fun start =>
      expect .semicolon >>= fun _ => spanFrom start >>= fun span => pure (f span)) : Headed n m m :=
  ⟨_, _, hm, hm, fun start => (Tied.expect _).bind fun _ => (Tied.spanFrom start).bind fun _ => .pure _⟩

theorem printing_headed : Headed n (printing .standard) (printing .standard) :=
  ⟨_, _, rfl, rfl, fun start => (expr_tied n _).bind fun _ => (Tied.expect _).bind fun _ =>
    (Tied.spanFrom start).bind fun _ => .pure _⟩

theorem kind_ne_eof_of_form {k : Kind} {form : Form} (h : Grammar.standard.form? k = some form) :
    k ≠ .eof := by
  rintro rfl
  cases h

/-- Every statement takes a token. -/
theorem stmtStep_advances (hs : Tied c.remaining s s') :
    Advances c (stmtStep .standard s) (stmtStep .standard s') := by
  refine .congr (stmtStep_run s c) (stmtStep_run s' c) ?_
  cases hform : Grammar.standard.form? c.kind with
  | none => exact expression_advances c
  | some form =>
    have hk := kind_ne_eof_of_form hform
    cases form with
    | declaration => exact declaration_headed.advances hk
    | branch => exact (branch_headed hs).advances hk
    | block => exact (block_advances hs).bind fun _ => .pure _
    | function => exact (function_headed hs).advances hk
    | returning => exact returning_headed.advances hk
    | whileLoop => exact (whileLoop_headed hs).advances hk
    | forLoop => exact (forLoop_headed hs).advances hk
    | breaking => exact (jump_headed (f := .breakLoop) rfl).advances hk
    | continuing => exact (jump_headed (f := .continueLoop) rfl).advances hk
    | printing => exact printing_headed.advances hk

/-- The statements inside a statement are read in the same way if nothing bounds them. -/
theorem stmt_advances (c : Cursor) : Advances c (stmt .standard) (stmtStep .standard (stmt .standard)) := by
  generalize hn : c.remaining = n
  induction n using Nat.strongRecOn generalizing c with
  | ind n ih =>
    refine .congr (stmt_eq c) rfl (stmtStep_advances fun c' hlt => ?_)
    have hbehind : stmtBehind c c' = stmt .standard c' := if_pos hlt
    exact ⟨hbehind, by
      rw [hbehind]
      exact (ih _ (hn ▸ hlt) c' rfl).onward⟩

theorem stmt_tied (n : Nat) : Tied n (stmt .standard) (stmt .standard) :=
  fun c _ => ⟨rfl, (stmt_advances c).onward⟩

end Statements

end Reading
end Numlet
