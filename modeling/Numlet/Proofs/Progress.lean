import Numlet.Proofs.Tree.Progress

/-!
Reading always makes progress. A cursor stands on a token of its list and never moves back, what is read of an
expression or a statement is never empty, and so every loop of the reading comes to an end.
-/
namespace Numlet

/-- A list of tokens with the end mark, which is added if it is missing. -/
def Token.marked (file : String) (tokens : List Token) : List Token :=
  match tokens.getLast? with
  | none => [.ending ⟨0, file⟩]
  | some last => if last.kind = .eof then tokens else tokens ++ [.ending last.span.stop]

namespace Cursor

variable {tokens : List Token} {i : Nat} {c c' : Cursor}

/-- A cursor stands on the token at an index of a list, which ends with the end mark. -/
structure At (tokens : List Token) (i : Nat) (c : Cursor) : Prop where
  ahead : tokens.drop i = c.ahead ++ [⟨.eof, c.endValue, c.endSpan⟩]
  previous : c.previous = (tokens.take i).getLast?

theorem ofTokens_at (file : String) (tokens : List Token) :
    (ofTokens file tokens).At (Token.marked file tokens) 0 := by
  unfold ofTokens Token.marked
  cases hlast : tokens.getLast? with
  | none => exact ⟨rfl, rfl⟩
  | some last =>
    dsimp only
    split
    · next hk =>
      obtain ⟨init, rfl⟩ := List.getLast?_eq_some_iff.mp hlast
      have hmark : (⟨.eof, last.value, last.span⟩ : Token) = last := by rw [← hk]
      refine ⟨?_, rfl⟩
      change init ++ [last] = (init ++ [last]).dropLast ++ [⟨.eof, last.value, last.span⟩]
      rw [List.dropLast_concat, hmark]
    · exact ⟨rfl, rfl⟩

namespace At

theorem length_eq (h : c.At tokens i) : i + c.remaining + 1 = tokens.length := by
  have hlength := congrArg List.length h.ahead
  rw [List.length_drop, List.length_append, List.length_singleton, ← c.remaining_eq] at hlength
  omega

theorem current (h : c.At tokens i) : tokens[i]? = some c.current := by
  have hhead := congrArg List.head? h.ahead
  rw [List.head?_drop] at hhead
  rw [hhead]
  unfold Cursor.current
  cases c.ahead <;> rfl

/-- Before the end mark a cursor moves by one token. -/
theorem succ (h : c.At tokens i) (hlt : i + 1 < tokens.length) : c.advance.At tokens (i + 1) := by
  have hlength := h.length_eq
  unfold Cursor.advance
  split
  · next hahead =>
    rw [c.remaining_eq, hahead, List.length_nil] at hlength
    omega
  · next t rest hahead =>
    have hdrop := h.ahead
    rw [hahead, List.cons_append] at hdrop
    have htoken : tokens[i]? = some t := by
      rw [← List.head?_drop, hdrop]
      rfl
    refine ⟨?_, ?_⟩
    · rw [← List.tail_drop, hdrop]
      rfl
    · rw [List.take_add_one, htoken]
      exact (List.getLast?_concat).symm

theorem advance (h : c.At tokens i) : ∃ j, i ≤ j ∧ c.advance.At tokens j := by
  by_cases hlt : i + 1 < tokens.length
  · exact ⟨i + 1, Nat.le_succ i, h.succ hlt⟩
  · have hlength := h.length_eq
    have hahead : c.ahead = [] := List.eq_nil_of_length_eq_zero (by rw [← c.remaining_eq]; omega)
    have hstay : c.advance = c := by
      unfold Cursor.advance
      split
      · rfl
      · next hcons =>
        rw [hahead] at hcons
        cases hcons
    exact ⟨i, Nat.le_refl i, hstay.symm ▸ h⟩

theorem onward (h : c.At tokens i) (hc : c.Onward c') : ∃ j, i ≤ j ∧ c'.At tokens j := by
  induction hc with
  | here => exact ⟨i, Nat.le_refl i, h⟩
  | advance _ ih =>
    obtain ⟨j, hj, hat⟩ := ih
    obtain ⟨k, hk, hat'⟩ := hat.advance
    exact ⟨k, Nat.le_trans hj hk, hat'⟩

/-- A cursor with fewer tokens ahead stands further on. -/
theorem past (h : c.At tokens i) (hc : c.Onward c') (hlt : c'.remaining < c.remaining) :
    ∃ j, i < j ∧ c'.At tokens j := by
  obtain ⟨j, -, hat⟩ := h.onward hc
  have hlength := h.length_eq
  have hlength' := hat.length_eq
  exact ⟨j, by omega, hat⟩

end At

/-- Every token of a list is reached from the first one. -/
theorem exists_at (h : c.At tokens 0) (hi : i < tokens.length) : ∃ c', c.Onward c' ∧ c'.At tokens i := by
  induction i with
  | zero => exact ⟨c, .here, h⟩
  | succ i ih =>
    obtain ⟨c', honward, hat⟩ := ih (by omega)
    exact ⟨c'.advance, .advance honward, hat.succ hi⟩

end Cursor

/-- A loop that takes some number of rounds before its last one: a round leads to the next one, or it tells
what the loop ends with. -/
inductive Iterates {σ ρ : Type} (round : σ → σ ⊕ ρ) : Nat → σ → ρ → Prop
  | last {s : σ} {r : ρ} (h : round s = .inr r) : Iterates round 0 s r
  | more {n : Nat} {s s' : σ} {r : ρ} (h : round s = .inl s') (hrest : Iterates round n s' r) :
      Iterates round (n + 1) s r

namespace Reading

variable {α : Type}

/-- A round of the loop that reads items up to a kind of token. It knows the items read so far. -/
def listRound (stop : Kind) (item : Reading α) (s : List α × Cursor) :
    (List α × Cursor) ⊕ EStateM.Result Diagnostic Cursor (List α) :=
  if s.2.kind = stop then .inr (.ok s.1 s.2)
  else match item s.2 with
    | .ok a c => .inl (s.1 ++ [a], c)
    | .error d c => .inr (.error d c)

/-- A round of the loop that lengthens an expression. -/
def operatorRound (level : Level) (s : Expr × Cursor) :
    (Expr × Cursor) ⊕ EStateM.Result Diagnostic Cursor Expr :=
  if level.rank < (Grammar.standard.level s.2.kind).rank then
    match continuation .standard (expr .standard) s.1 s.2 with
    | .ok longer c => .inl (longer, c)
    | .error d c => .inr (.error d c)
  else .inr (.ok s.1 s.2)

/-- The items before those that a loop has read. -/
def prepend (before : List α) : EStateM.Result Diagnostic Cursor (List α) →
    EStateM.Result Diagnostic Cursor (List α)
  | .ok as c => .ok (before ++ as) c
  | .error d c => .error d c

/-- If each item takes a token, there are no more rounds than tokens. -/
theorem many_rounds (stop : Kind) {item : Reading α}
    (hitem : ∀ c a c', item c = .ok a c' → c'.remaining < c.remaining) (before : List α) (c : Cursor) :
    ∃ n, n ≤ c.remaining ∧ Iterates (listRound stop item) n (before, c) (prepend before (many stop item c)) := by
  fun_induction many stop item c generalizing before with
  | case1 c hk =>
    refine ⟨0, Nat.zero_le _, .last ?_⟩
    simp [listRound, prepend, hk]
  | case2 c hk d c' hrun =>
    refine ⟨0, Nat.zero_le _, .last ?_⟩
    simp [listRound, prepend, hk, hrun]
  | case3 c hk a c' hrun hlt d c'' hmany ih =>
    obtain ⟨n, hn, hrounds⟩ := ih (before ++ [a])
    rw [hmany] at hrounds
    exact ⟨n + 1, by omega, .more (by simp [listRound, hk, hrun]) hrounds⟩
  | case4 c hk a c' hrun hlt as c'' hmany ih =>
    obtain ⟨n, hn, hrounds⟩ := ih (before ++ [a])
    rw [hmany, prepend, List.append_assoc] at hrounds
    exact ⟨n + 1, by omega, .more (by simp [listRound, hk, hrun]) hrounds⟩
  | case5 c hk a c' hrun hle => exact absurd (hitem c a c' hrun) hle

theorem climb_rounds (level : Level) (left : Expr) (c : Cursor) :
    ∃ n, n ≤ c.remaining ∧
      Iterates (operatorRound level) n (left, c) (climb .standard (expr .standard) level left c) := by
  fun_induction climb .standard (expr .standard) level left c with
  | case1 left c hlt d c' hrun =>
    refine ⟨0, Nat.zero_le _, .last ?_⟩
    simp [operatorRound, hlt, hrun]
  | case2 left c hlt longer c' hrun hdown ih =>
    obtain ⟨n, hn, hrounds⟩ := ih
    exact ⟨n + 1, by omega, .more (by simp [operatorRound, hlt, hrun]) hrounds⟩
  | case3 left c hlt longer c' hrun hle =>
    exact absurd ((continuation_advances (expr_tied _) left).past _ _ hrun) hle
  | case4 left c hle =>
    refine ⟨0, Nat.zero_le _, .last ?_⟩
    simp [operatorRound, hle]

/-- The ways to use a reader, each from any cursor. -/
inductive Call
  | take
  | expect (kind : Kind)
  | expectOr (kind : Kind) (message : String)
  | numType
  | primary
  | unary
  | group
  | binary (left : Expr) (level : Level)
  | assignment (left : Expr)
  | call (left : Expr)
  | update (left : Expr)
  | conversion (left : Expr)
  | expr (level : Level)
  | declaration
  | branch
  | block
  | function
  | returning
  | whileLoop
  | forLoop
  | breaking
  | continuing
  | printing
  | stmt
  | program

/-- Where a call leaves the cursor, whether it succeeds or not. -/
def Call.run (c : Cursor) : Call → Cursor
  | take => finalState (Reading.take c)
  | expect kind => finalState (Reading.expect kind c)
  | expectOr kind message => finalState (Reading.expectOr kind message c)
  | numType => finalState (Reading.numType c)
  | primary => finalState (Reading.primary c)
  | unary => finalState (Reading.unary (Reading.expr .standard) c)
  | group => finalState (Reading.group (Reading.expr .standard) c)
  | binary left level => finalState (Reading.binary (Reading.expr .standard) left level c)
  | assignment left => finalState (Reading.assignment (Reading.expr .standard) left c)
  | call left => finalState (Reading.call (Reading.expr .standard) left c)
  | update left => finalState (Reading.update left c)
  | conversion left => finalState (Reading.conversion left c)
  | expr level => finalState (Reading.expr .standard level c)
  | declaration => finalState (Reading.declaration .standard c)
  | branch => finalState (Reading.branch .standard (Reading.stmt .standard) c)
  | block => finalState (Reading.block (Reading.stmt .standard) c)
  | function => finalState (Reading.function (Reading.stmt .standard) c)
  | returning => finalState (Reading.returning .standard c)
  | whileLoop => finalState (Reading.whileLoop .standard (Reading.stmt .standard) c)
  | forLoop => finalState (Reading.forLoop .standard (Reading.stmt .standard) c)
  | breaking => finalState (Reading.breaking c)
  | continuing => finalState (Reading.continuing c)
  | printing => finalState (Reading.printing .standard c)
  | stmt => finalState (Reading.stmt .standard c)
  | program => finalState (Reading.program .standard c)

theorem program_tied (n : Nat) : Tied n (program .standard) (program .standard) :=
  (Tied.many _ (stmt_tied n)).bind fun _ => Tied.get.bind fun _ => .pure _

theorem Tied.onward {m m' : Reading α} (h : ∀ n, Tied n m m') (c : Cursor) :
    c.Onward (finalState (m c)) := (h _ c (Nat.lt_succ_self _)).onward

theorem Call.onward (call : Call) (c : Cursor) : c.Onward (call.run c) := by
  cases call with
  | take => exact Tied.onward (fun _ => .take) c
  | expect kind => exact Tied.onward (fun _ => .expect kind) c
  | expectOr kind message => exact Tied.onward (fun _ => .expectOr kind message) c
  | numType => exact Tied.onward (fun _ => .numType) c
  | primary => exact (primary_advances c).onward
  | unary => exact Tied.onward (fun n => (unary_headed (expr_tied n)).tied) c
  | group => exact Tied.onward (fun n => (group_headed (expr_tied n)).tied) c
  | binary left level => exact Tied.onward (fun n => (binary_headed (expr_tied n) left level).tied) c
  | assignment left => exact Tied.onward (fun n => (assignment_headed (expr_tied n) left).tied) c
  | call left =>
    cases left with
    | var callee span => exact Tied.onward (fun n => (call_headed (expr_tied n) callee span).tied) c
    | literal | binary | unary | update | assign | convert | call => exact .here
  | update left => exact Tied.onward (fun _ => (update_headed left).tied) c
  | conversion left => exact Tied.onward (fun _ => (conversion_headed left).tied) c
  | expr level => exact (expr_advances level c).onward
  | declaration => exact Tied.onward (fun _ => declaration_headed.tied) c
  | branch => exact Tied.onward (fun n => (branch_headed (stmt_tied n)).tied) c
  | block => exact (block_advances (stmt_tied _)).onward
  | function => exact Tied.onward (fun n => (function_headed (stmt_tied n)).tied) c
  | returning => exact Tied.onward (fun _ => returning_headed.tied) c
  | whileLoop => exact Tied.onward (fun n => (whileLoop_headed (stmt_tied n)).tied) c
  | forLoop => exact Tied.onward (fun n => (forLoop_headed (stmt_tied n)).tied) c
  | breaking => exact Tied.onward (fun _ => (jump_headed (f := .breakLoop) rfl).tied) c
  | continuing => exact Tied.onward (fun _ => (jump_headed (f := .continueLoop) rfl).tied) c
  | printing => exact Tied.onward (fun _ => printing_headed.tied) c
  | stmt => exact (stmt_advances c).onward
  | program => exact Tied.onward program_tied c

/-- However often a reader is used, the cursor only moves on. -/
theorem Call.foldl_onward (calls : List Call) (c : Cursor) : c.Onward (calls.foldl Call.run c) := by
  induction calls generalizing c with
  | nil => exact .here
  | cons call calls ih => exact (call.onward c).trans (ih _)

theorem prepend_nil (r : EStateM.Result Diagnostic Cursor (List α)) : prepend [] r = r := by
  cases r <;> rfl

theorem listItem_past {item : Reading α} (hitem : ∀ c a c', item c = .ok a c' → c'.remaining < c.remaining)
    (message : String) {c c' : Cursor} {a : α} (h : listItem item message c = .ok a c') :
    c'.remaining < c.remaining := by
  obtain ⟨c₁, hrun, ⟨-, rfl⟩ | ⟨-, rfl⟩⟩ := listItem_eq_ok h
  · exact Nat.lt_of_le_of_lt c₁.remaining_advance_le (hitem c a c₁ hrun)
  · exact hitem c a _ hrun

/-- From a cursor all loops come to an end, with no more rounds than there are tokens ahead. -/
structure LoopsEnd (c : Cursor) : Prop where
  operators (level : Level) (left : Expr) : ∃ n, n ≤ c.remaining ∧
    Iterates (operatorRound level) n (left, c) (climb .standard (expr .standard) level left c)
  arguments (message : String) : ∃ n, n ≤ c.remaining ∧
    Iterates (listRound .closeParen (listItem (expr .standard .comma) message)) n ([], c)
      (commaList (expr .standard .comma) message c)
  parameters (message : String) : ∃ n, n ≤ c.remaining ∧
    Iterates (listRound .closeParen (listItem parameter message)) n ([], c) (commaList parameter message c)
  statements : ∃ n, n ≤ c.remaining ∧
    Iterates (listRound .closeCurly (blockItem (stmt .standard))) n ([], c)
      (many .closeCurly (blockItem (stmt .standard)) c)
  program : ∃ n, n ≤ c.remaining ∧
    Iterates (listRound .eof (stmt .standard)) n ([], c) (many .eof (stmt .standard) c)

theorem loopsEnd (c : Cursor) : LoopsEnd c := by
  have hlist {α : Type} {stop : Kind} {item : Reading α}
      (hitem : ∀ c a c', item c = .ok a c' → c'.remaining < c.remaining) :
      ∃ n, n ≤ c.remaining ∧ Iterates (listRound stop item) n ([], c) (many stop item c) := by
    obtain ⟨n, hn, hrounds⟩ := many_rounds stop hitem [] c
    exact ⟨n, hn, prepend_nil (many stop item c) ▸ hrounds⟩
  refine ⟨fun level left => climb_rounds level left c, fun message => ?_, fun message => ?_, ?_, ?_⟩
  · exact hlist fun _ _ _ => listItem_past (fun c => (expr_advances .comma c).past) message
  · exact hlist fun _ _ _ => listItem_past (fun c => (parameter_advances c).past) message
  · exact hlist fun c s c' hrun => (stmt_advances c).past s c' (blockItem_eq_ok hrun)
  · exact hlist fun c => (stmt_advances c).past

/-- Whatever the tokens, a cursor stands on one of them, any calls of the reader leave it there or further on,
and an expression or a statement that is read leaves it further on. The reading of a tree is its own recursion
without a bound, in which every loop ends; at last the loop over the statements of the program does, and there
is a program or a diagnostic. -/
theorem makes_progress (file : String) (tokens : List Token) :
    (∀ i, i < (Token.marked file tokens).length →
      ∃ c, (Cursor.ofTokens file tokens).Onward c ∧ c.At (Token.marked file tokens) i) ∧
    (∀ i c, c.At (Token.marked file tokens) i → (Token.marked file tokens)[i]? = some c.current ∧
      (∀ calls : List Call, ∃ j, i ≤ j ∧ (calls.foldl Call.run c).At (Token.marked file tokens) j) ∧
      (∀ level e c', expr .standard level c = .ok e c' → ∃ j, i < j ∧ c'.At (Token.marked file tokens) j) ∧
      (∀ s c', stmt .standard c = .ok s c' → ∃ j, i < j ∧ c'.At (Token.marked file tokens) j) ∧
      (∀ level, expr .standard level c = exprStep .standard (expr .standard) level c) ∧
      stmt .standard c = stmtStep .standard (stmt .standard) c ∧ LoopsEnd c) ∧
    ∃ n r, n < (Token.marked file tokens).length ∧
      Iterates (listRound .eof (stmt .standard)) n ([], Cursor.ofTokens file tokens) r ∧
      Program.ofTokens file tokens = match r with
        | .ok stmts c => .ok (.ofStmts stmts ⟨⟨0, c.file⟩, c.position⟩) c
        | .error d c => .error d c := by
  have hstart := Cursor.ofTokens_at file tokens
  refine ⟨fun i hi => Cursor.exists_at hstart hi, fun i c hat => ⟨hat.current, fun calls => ?_, ?_, ?_, ?_, ?_, ?_⟩, ?_⟩
  · exact hat.onward (Call.foldl_onward calls c)
  · intro level e c' hrun
    have honward := (expr_advances level c).onward
    rw [hrun] at honward
    exact hat.past honward ((expr_advances level c).past e c' hrun)
  · intro s c' hrun
    have honward := (stmt_advances c).onward
    rw [hrun] at honward
    exact hat.past honward ((stmt_advances c).past s c' hrun)
  · exact fun level => (expr_advances level c).same
  · exact (stmt_advances c).same
  · exact loopsEnd c
  · obtain ⟨n, hn, hrounds⟩ := (loopsEnd (Cursor.ofTokens file tokens)).program
    have hlength := hstart.length_eq
    refine ⟨n, _, by omega, hrounds, ?_⟩
    unfold Program.ofTokens
    cases hmany : many .eof (stmt .standard) (Cursor.ofTokens file tokens) with
    | ok stmts c => exact bind_of_ok hmany
    | error d c => exact bind_of_error hmany

/-- Tokens without an end mark but with one among them: a statement is read behind it. -/
theorem makes_progress_behind_mark :
    ∃ tokens, tokens = [Token.ending ⟨0, "f"⟩, ⟨.identifier, "x", .empty ⟨3, "f"⟩⟩,
        ⟨.semicolon, "?", .empty ⟨1, "f"⟩⟩] ∧
      (Token.marked "f" tokens).length = 4 ∧
      (Cursor.ofTokens "f" tokens).advance.At (Token.marked "f" tokens) 1 ∧
      ∃ s c', stmt .standard (Cursor.ofTokens "f" tokens).advance = .ok s c' ∧
        ∃ j, 1 < j ∧ c'.At (Token.marked "f" tokens) j := by
  refine ⟨_, rfl, rfl, ⟨rfl, rfl⟩, ?_⟩
  obtain ⟨s, c', hrun, -⟩ := exists_run_of_decide (P := fun _ _ => True)
    (x := stmt .standard (Cursor.ofTokens "f" [Token.ending ⟨0, "f"⟩,
      ⟨.identifier, "x", .empty ⟨3, "f"⟩⟩, ⟨.semicolon, "?", .empty ⟨1, "f"⟩⟩]).advance) (by decide +kernel)
  exact ⟨s, c', hrun, ((makes_progress "f" _).2.1 1 _ ⟨rfl, rfl⟩).2.2.2.1 s c' hrun⟩

end Reading

end Numlet
