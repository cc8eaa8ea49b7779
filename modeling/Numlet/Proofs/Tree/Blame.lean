import Numlet.Proofs.Placed
import Numlet.Proofs.Tree.Accepted
import Numlet.Proofs.Tree.Steps

/-!
Where the faults lie that a reading finds, and where the nodes stand that it makes: at the starts of tokens.
A call ends with the last of the tokens that spell it.
-/
namespace Numlet

/-- Tokens in a row spell a call of a function with some number of arguments, and the parenthesis that closes
it ends at a place. -/
def ClosesCall (tokens : List Token) (callee : String) (received : Nat) (place : Position) : Prop :=
  ∃ before spelling close after arguments, tokens = before ++ (spelling ++ close :: after) ∧
    close.kind = .closeParen ∧ close.span.stop = place ∧ arguments.length = received ∧
    Derives .applied ((spelling ++ [close]).map Token.lexeme) (.call callee arguments .nowhere)

/-- The places that a list of tokens gives. -/
def Marks.ofTokens (tokens : List Token) : Marks where
  start place := ∃ t ∈ tokens, t.span.start = place
  close := ClosesCall tokens

/-- A cursor moves on a list of tokens that ends with the end mark. -/
def Cursor.On (tokens : List Token) (c : Cursor) : Prop :=
  ∃ before, tokens = before ++ (c.ahead ++ [⟨.eof, c.endValue, c.endSpan⟩])

variable {tokens : List Token} {c c' : Cursor}

theorem Marks.start_of_mem {t : Token} (h : t ∈ tokens) : (ofTokens tokens).start t.span.start :=
  ⟨t, h, rfl⟩

namespace Cursor.On

theorem current_mem (h : c.On tokens) : c.current ∈ tokens := by
  obtain ⟨before, rfl⟩ := h
  unfold current
  cases c.ahead <;> simp

theorem advance (h : c.On tokens) : c.advance.On tokens := by
  obtain ⟨before, htokens⟩ := h
  unfold Cursor.advance
  split
  · exact ⟨before, htokens⟩
  · next t rest hahead =>
    exact ⟨before ++ [t], by simp [htokens, hahead]⟩

end Cursor.On

/-- A token that is not the end mark is the last one passed when the cursor has moved. -/
theorem Cursor.ahead_eq (h : c.kind ≠ .eof) :
    c.ahead = c.current :: c.advance.ahead ∧ c.advance.previousEnd = c.current.span.stop := by
  unfold kind at h
  unfold advance
  split
  · next hahead =>
    unfold current at h
    rw [hahead] at h
    exact absurd rfl h
  · next t rest hahead =>
    have hcurrent : c.current = t := by rw [current, hahead]; rfl
    rw [hcurrent]
    exact ⟨hahead, rfl⟩

namespace Reading

/-- On a list of tokens, a reading gives a value as `P` says or fails at a place that the tokens give. -/
abbrev Finds {α : Type} (tokens : List Token) (P : α → Prop) (m : Reading α) : Prop :=
  Blames (Cursor.On tokens) (Marks.ofTokens tokens).Admits P m

theorem on_keeps : Keeps (Cursor.On tokens) (Marks.ofTokens tokens).Admits (· ∈ tokens) where
  advance _ h := h.advance
  current _ h := h.current_mem
  refusal _ h := Marks.start_of_mem h.current_mem
  complaint _ _ h := Marks.start_of_mem h.current_mem
  unknownType _ h := Marks.start_of_mem h

theorem expect_eq_ok {k : Kind} {t : Token} (h : expect k c = .ok t c') :
    c.kind = k ∧ t = c.current ∧ c' = c.advance := by
  unfold expect at h
  split at h
  · next hk => exact ⟨hk, take_eq_ok h⟩
  · cases h

section Expressions

/-- A reader of expressions gives trees that stand where the tokens are. -/
def FindsExprs (tokens : List Token) (e : ExprReader) : Prop :=
  ∀ level, Finds tokens (Expr.Placed (.ofTokens tokens)) (e level)

variable {e : ExprReader} {left : Expr}

theorem primary_finds : Finds tokens (Expr.Placed (.ofTokens tokens)) primary := by
  refine .bind .get fun c hc => ?_
  have hspan : (Marks.ofTokens tokens).start c.current.span.start := Marks.start_of_mem hc.current_mem
  have htake (f : Token → Expr) (hf : ∀ t ∈ tokens, (f t).Placed (.ofTokens tokens)) :
      Finds tokens (Expr.Placed (.ofTokens tokens)) (do return f (← take)) :=
    on_keeps.take.bind fun t ht => .pure (hf t ht)
  dsimp only
  split
  · cases literal? c.current.value with
    | none => exact .throw hspan
    | some value => exact htake (fun t => .literal value t.span) fun t ht => Marks.start_of_mem ht
  · exact htake (fun t => .literal (.int 1) t.span) fun t ht => Marks.start_of_mem ht
  · exact htake (fun t => .literal (.int 0) t.span) fun t ht => Marks.start_of_mem ht
  · exact htake (fun t => .var c.current.value t.span) fun t ht => Marks.start_of_mem ht
  · exact on_keeps.refuse

theorem unary_finds (he : FindsExprs tokens e) : Finds tokens (Expr.Placed (.ofTokens tokens)) (unary e) :=
  on_keeps.take.bind fun _ hsign => (he _).bind fun _ hoperand =>
    .pure ⟨Marks.start_of_mem hsign, hoperand⟩

theorem group_finds (he : FindsExprs tokens e) : Finds tokens (Expr.Placed (.ofTokens tokens)) (group e) :=
  on_keeps.take.bind fun _ _ => (he _).bind fun _ hinner => (on_keeps.expect _).bind fun _ _ => .pure hinner

theorem opening_finds (g : Grammar) (he : FindsExprs tokens e) :
    Finds tokens (Expr.Placed (.ofTokens tokens)) (opening g e) := by
  refine kind_blames.bind fun k _ => ?_
  cases g.opening? k with
  | none => exact on_keeps.refuse
  | some way =>
    cases way with
    | primary => exact primary_finds
    | unary => exact unary_finds he
    | group => exact group_finds he

theorem binary_finds (he : FindsExprs tokens e) (hleft : left.Placed (.ofTokens tokens)) (level : Level) :
    Finds tokens (Expr.Placed (.ofTokens tokens)) (binary e left level) := by
  refine on_keeps.take.bind fun sign hsign => ?_
  cases BinaryOp.ofKind? sign.kind with
  | none => exact .throw (Marks.start_of_mem hsign)
  | some op => exact (he level).bind fun right hright => .pure ⟨hleft.span, hleft, hright⟩

/-- The operand of a compound assignment stands in the tree twice, at the same place. -/
theorem assignment_finds (he : FindsExprs tokens e) (hleft : left.Placed (.ofTokens tokens)) :
    Finds tokens (Expr.Placed (.ofTokens tokens)) (assignment e left) := by
  refine on_keeps.take.bind fun sign _ => (he _).bind fun right hright => ?_
  dsimp only
  cases BinaryOp.ofKind? sign.kind with
  | none => exact .pure ⟨hleft.span, hleft, hright⟩
  | some op => exact .pure ⟨hleft.span, hleft, hleft.span, hleft, hright⟩

theorem update_finds (hleft : left.Placed (.ofTokens tokens)) :
    Finds tokens (Expr.Placed (.ofTokens tokens)) (update left) := by
  refine on_keeps.take.bind fun sign _ => ?_
  cases left with
  | var target span => exact .pure ⟨hleft, hleft⟩
  | literal | binary | unary | update | assign | convert | call => exact .throw hleft.span

theorem conversion_finds (hleft : left.Placed (.ofTokens tokens)) :
    Finds tokens (Expr.Placed (.ofTokens tokens)) (conversion left) :=
  on_keeps.take.bind fun _ _ => on_keeps.numType.bind fun _ _ => lastEnd_blames.bind fun _ _ =>
    .pure ⟨hleft.span, hleft⟩

/-- The tokens of an expression have just been passed. -/
def Behind (tokens : List Token) (left : Expr) (c : Cursor) : Prop :=
  ∃ before spelling last rank, tokens = before ++ (spelling ++ (c.ahead ++ [last])) ∧
    Stretch rank (spelling.map Token.lexeme) left c

/-- What is read next belongs to the longer expression. -/
theorem Behind.continued (he : Sound e) {longer : Expr} (h : Behind tokens left c)
    (hrun : continuation .standard e left c = .ok longer c') : Behind tokens longer c' := by
  obtain ⟨before, spelling, last, rank, htokens, hstretch⟩ := h
  obtain ⟨_, ⟨taken, htaken, rfl⟩, -, n, -, hlonger⟩ := continuation_derives he hstretch hrun
  refine ⟨before, spelling ++ taken, last, n, ?_, ?_⟩
  · rw [htokens, htaken]
    simp
  · rwa [List.map_append]

/-- A call ends with its closing parenthesis. -/
theorem call_closes (he : Sound e) {callee : String} {span : Span} (h : Behind tokens (.var callee span) c)
    (hk : c.kind = .openParen) {t : Expr} (hrun : call e (.var callee span) c = .ok t c') :
    ∃ arguments stop, t = .call callee arguments ⟨span.start, stop⟩ ∧
      ClosesCall tokens callee arguments.length stop := by
  obtain ⟨before, spelling, last, rank, htokens, hstretch⟩ := h
  have hname : Names (spelling.map Token.lexeme) callee := hstretch.derives.names rfl
  obtain ⟨first, c₁, htake, hrun⟩ := bind_eq_ok.mp hrun
  obtain ⟨rfl, rfl⟩ := take_eq_ok htake
  have hfirst := (Cursor.ahead_eq (c := c) (by simp [hk])).1
  obtain ⟨arguments, c₂, hlist, hrun⟩ := bind_eq_ok.mp hrun
  obtain ⟨_, ⟨taken, htaken, rfl⟩, harguments⟩ := arguments_derive he hlist
  obtain ⟨close, c₃, hexpect, hrun⟩ := bind_eq_ok.mp hrun
  obtain ⟨hclose, rfl, rfl⟩ := expect_eq_ok hexpect
  obtain ⟨hlast, hstop⟩ := Cursor.ahead_eq (c := c₂) (by simp [hclose])
  cases hrun
  have hcall : Derives .applied
      (spelling.map Token.lexeme ++ c.current.lexeme :: (taken.map Token.lexeme ++ [c₂.current.lexeme]))
      (.call callee (unplacedExprs arguments) .nowhere) := .call hname hk harguments hclose
  refine ⟨arguments, _, rfl, before, spelling ++ c.current :: taken, c₂.current,
    c₂.advance.ahead ++ [last], unplacedExprs arguments, ?_, hclose, hstop.symm, ?_, ?_⟩
  · rw [htokens, hfirst, htaken, hlast]
    simp
  · rw [unplacedExprs_eq_map, List.length_map]
  · simpa using hcall

/-- The parts of a call stand where the tokens are; where the call ends, its own run tells. -/
theorem call_finds (hread : FindsExprs tokens e) (he : Sound e) (hleft : left.Placed (.ofTokens tokens))
    (hc : c.On tokens) (h : Behind tokens left c) (hk : c.kind = .openParen) :
    Ends (Marks.ofTokens tokens).Admits (fun t c' => c'.On tokens ∧ t.Placed (.ofTokens tokens))
      (call e left c) := by
  cases left with
  | var callee span =>
    have hparts : Finds tokens (fun t => ∀ arguments stop, t = .call callee arguments ⟨span.start, stop⟩ →
        placedExprs (.ofTokens tokens) arguments) (call e (.var callee span)) := by
      refine on_keeps.take.bind fun _ _ => (on_keeps.commaList _ (hread _)).bind fun found hfound => ?_
      refine (on_keeps.expect _).bind fun _ _ => lastEnd_blames.bind fun _ _ => .pure ?_
      rintro arguments stop heq
      cases heq
      exact placedExprs_iff.mpr hfound
    refine (hparts c hc).imp fun t c' hrun ht => ⟨ht.1, ?_⟩
    obtain ⟨arguments, stop, rfl, hclose⟩ := call_closes he h hk hrun
    exact ⟨hleft, hclose, ht.2 arguments stop rfl⟩
  | literal | binary | unary | update | assign | convert | call => exact hleft.span

theorem continuation_finds (hread : FindsExprs tokens e) (he : Sound e)
    (hleft : left.Placed (.ofTokens tokens)) (hc : c.On tokens) (h : Behind tokens left c) :
    Ends (Marks.ofTokens tokens).Admits (fun t c' => c'.On tokens ∧ t.Placed (.ofTokens tokens))
      (continuation .standard e left c) := by
  have hkind : Ends (Marks.ofTokens tokens).Admits (fun k c' => c' = c ∧ k = c.kind) (kind c) :=
    ⟨rfl, rfl⟩
  refine hkind.bind ?_
  rintro _ c _ ⟨rfl, rfl⟩
  cases hway : Grammar.standard.continuation? c.kind with
  | none => exact on_keeps.refuse c hc
  | some way =>
    cases way with
    | assignment => exact assignment_finds hread hleft c hc
    | binary => exact binary_finds hread hleft _ c hc
    | conversion => exact conversion_finds hleft c hc
    | call => exact call_finds hread he hleft hc h (continuation?_eq_call.mp hway)
    | update => exact update_finds hleft c hc

/-- Climbing keeps hold of the tokens that it has passed, since what it has read may be the name of a call. -/
theorem climb_finds (hread : FindsExprs tokens e) (he : Sound e) (level : Level)
    (hleft : left.Placed (.ofTokens tokens)) (hc : c.On tokens) (h : Behind tokens left c) :
    Ends (Marks.ofTokens tokens).Admits (fun t c' => c'.On tokens ∧ t.Placed (.ofTokens tokens))
      (climb .standard e level left c) := by
  fun_induction climb .standard e level left c with
  | case1 left c hlt d c' hrun =>
    have hstep := continuation_finds hread he hleft hc h
    rwa [hrun] at hstep
  | case2 left c hlt longer c' hrun hdown ih =>
    have hstep := continuation_finds hread he hleft hc h
    rw [hrun] at hstep
    exact ih hstep.2 hstep.1 (h.continued he hrun)
  | case3 left c hlt longer c' hrun hle =>
    have hstep := continuation_finds hread he hleft hc h
    rw [hrun] at hstep
    exact on_keeps.refuse c' hstep.1
  | case4 left c hle => exact ⟨hc, hleft⟩

theorem exprStep_finds (hread : FindsExprs tokens e) (he : Sound e) :
    FindsExprs tokens (exprStep .standard e) := by
  intro level c hc
  refine (opening_finds .standard hread c hc).bind fun left c' hrun hleft => ?_
  have hbehind : Behind tokens left c' := by
    obtain ⟨before, htokens⟩ := hc
    obtain ⟨_, ⟨taken, htaken, rfl⟩, hp⟩ := opening_derives he hrun
    exact ⟨before, taken, _, 10, by rw [htokens, htaken, List.append_assoc], .of_unary hp c'⟩
  exact climb_finds hread he level hleft.2 hleft.1 hbehind

/-- The reading of an expression fails at the start of a token, and it makes a tree that stands where the
tokens are. -/
theorem expr_finds : FindsExprs tokens (expr .standard) := by
  intro level c hc
  generalize hn : c.remaining = n
  induction n using Nat.strongRecOn generalizing level c with
  | ind n ih =>
    have hread : FindsExprs tokens (exprBehind c) := by
      intro level' c' hc'
      unfold exprBehind
      split
      · next hlt => exact ih _ (hn ▸ hlt) level' c' hc' rfl
      · exact on_keeps.refuse c' hc'
    have he : Sound (exprBehind c) := by
      intro level' c₁ t c₂ h
      unfold exprBehind at h
      split at h
      · exact expr_derives h
      · cases h
    rw [expr_eq]
    exact exprStep_finds hread he level c hc

end Expressions

section Statements

variable {s : Reading Stmt}

theorem spanFrom_finds {t : Token} (h : t ∈ tokens) :
    Finds tokens (fun span => (Marks.ofTokens tokens).start span.start) (spanFrom t) :=
  (spanFrom_blames t).imp fun _ hspan => ⟨t, h, hspan.symm⟩

theorem parameter_finds :
    Finds tokens (fun p => (Marks.ofTokens tokens).start p.span.start) parameter := by
  refine (on_keeps.expectOr _ _).bind fun name hname => (on_keeps.typeAfter _).bind fun _ _ => ?_
  exact (spanFrom_finds hname.2).bind fun span hspan => .pure hspan

theorem declaration_finds : Finds tokens (Stmt.Placed (.ofTokens tokens)) (declaration .standard) := by
  refine on_keeps.take.bind fun start hstart => (on_keeps.expectOr _ _).bind fun name _ => ?_
  refine (on_keeps.typeAfter _).bind fun _ _ => ?_
  refine on_keeps.afterMark _ (expr_finds _) fun value hvalue => ?_
  refine (on_keeps.expectOr _ _).bind fun _ _ => ?_
  exact (spanFrom_finds hstart).bind fun span hspan => .pure ⟨hspan, hvalue⟩

theorem branch_finds (hs : Finds tokens (Stmt.Placed (.ofTokens tokens)) s) :
    Finds tokens (Stmt.Placed (.ofTokens tokens)) (branch .standard s) := by
  refine on_keeps.take.bind fun start hstart => (expr_finds _).bind fun condition hcondition => ?_
  refine hs.bind fun yes hyes => on_keeps.afterMark _ hs fun no hno => ?_
  refine (spanFrom_finds hstart).bind fun span hspan => .pure ⟨hspan, hcondition, hyes, ?_⟩
  exact placedStmt?_iff.mpr hno

theorem block_finds (hs : Finds tokens (Stmt.Placed (.ofTokens tokens)) s) :
    Finds tokens (fun b => placedStmts (.ofTokens tokens) b.1 ∧ (Marks.ofTokens tokens).start b.2.start)
      (block s) := by
  have hitem : Finds tokens (Stmt.Placed (.ofTokens tokens)) (do
      if (← kind) = .eof then complain "unterminated block, expected `\x7d`"
      s) :=
    kind_blames.bind fun _ _ => .ite (fun _ => (on_keeps.complain (P := fun _ => True) _).bind fun _ _ => hs)
      fun _ => hs
  refine (on_keeps.expectOr _ _).bind fun start hstart => (on_keeps.many _ hitem).bind fun body hbody => ?_
  refine (on_keeps.expect _).bind fun _ _ => (spanFrom_finds hstart.2).bind fun span hspan => .pure ?_
  exact ⟨placedStmts_iff.mpr hbody, hspan⟩

theorem function_finds (hs : Finds tokens (Stmt.Placed (.ofTokens tokens)) s) :
    Finds tokens (Stmt.Placed (.ofTokens tokens)) (function s) := by
  refine on_keeps.take.bind fun start hstart => (on_keeps.expectOr _ _).bind fun name _ => ?_
  refine (on_keeps.expect _).bind fun _ _ => ?_
  refine (on_keeps.commaList _ parameter_finds).bind fun parameters hparameters => ?_
  refine (on_keeps.expect _).bind fun _ _ => (on_keeps.typeAfter _).bind fun _ _ => ?_
  refine (block_finds hs).bind fun body hbody => (spanFrom_finds hstart).bind fun span hspan => ?_
  exact .pure ⟨hspan, hparameters, hbody.1⟩

theorem returning_finds : Finds tokens (Stmt.Placed (.ofTokens tokens)) (returning .standard) := by
  refine on_keeps.take.bind fun start hstart => (unlessAt_blames _ (expr_finds _)).bind fun value hvalue => ?_
  refine (on_keeps.expect _).bind fun _ _ => (spanFrom_finds hstart).bind fun span hspan => ?_
  exact .pure ⟨hspan, hvalue⟩

theorem whileLoop_finds (hs : Finds tokens (Stmt.Placed (.ofTokens tokens)) s) :
    Finds tokens (Stmt.Placed (.ofTokens tokens)) (whileLoop .standard s) := by
  refine on_keeps.take.bind fun start hstart => (expr_finds _).bind fun condition hcondition => ?_
  refine hs.bind fun body hbody => (spanFrom_finds hstart).bind fun span hspan => ?_
  exact .pure ⟨hspan, hcondition, hbody⟩

theorem placed_ofExpr {m : Marks} {e : Expr} (h : e.Placed m) : (Stmt.ofExpr e).Placed m := by
  cases e with
  | assign | call => exact h
  | literal | var => exact ⟨h, h⟩
  | binary | unary | update | convert => exact ⟨h.1, h⟩

theorem expression_finds : Finds tokens (Stmt.Placed (.ofTokens tokens)) (expression .standard) :=
  (expr_finds _).bind fun _ hvalue => (on_keeps.expect _).bind fun _ _ => .pure (placed_ofExpr hvalue)

theorem loopStart_finds : Finds tokens (placedStmt? (.ofTokens tokens)) (loopStart .standard) := by
  refine kind_blames.bind fun k _ => ?_
  split
  · exact on_keeps.take.bind fun _ _ => .pure trivial
  · exact .map declaration_finds fun _ h => h
  · exact .map expression_finds fun _ h => h

theorem forLoop_finds (hs : Finds tokens (Stmt.Placed (.ofTokens tokens)) s) :
    Finds tokens (Stmt.Placed (.ofTokens tokens)) (forLoop .standard s) := by
  refine on_keeps.take.bind fun start hstart => (on_keeps.expect _).bind fun _ _ => ?_
  refine loopStart_finds.bind fun first hfirst => ?_
  refine (unlessAt_blames _ (expr_finds _)).bind fun condition hcondition => ?_
  refine (on_keeps.expect _).bind fun _ _ => ?_
  refine (unlessAt_blames _ (expr_finds _)).bind fun step hstep => ?_
  refine (on_keeps.expect _).bind fun _ _ => hs.bind fun body hbody => ?_
  refine (spanFrom_finds hstart).bind fun span hspan => ?_
  exact .pure ⟨hspan, hfirst, hcondition, hstep, hbody⟩

/-- A jump, whichever it is. -/
theorem jump_finds {f : Span → Stmt}
    (hf : ∀ span, (Marks.ofTokens tokens).start span.start → (f span).Placed (.ofTokens tokens)) :
    Finds tokens (Stmt.Placed (.ofTokens tokens)) (take >>= fun start => expect .semicolon >>= fun _ =>
      spanFrom start >>= fun span => pure (f span)) :=
  on_keeps.take.bind fun _ hstart => (on_keeps.expect _).bind fun _ _ =>
    (spanFrom_finds hstart).bind fun span hspan => .pure (hf span hspan)

theorem printing_finds : Finds tokens (Stmt.Placed (.ofTokens tokens)) (printing .standard) :=
  on_keeps.take.bind fun _ hstart => (expr_finds _).bind fun _ hvalue => (on_keeps.expect _).bind fun _ _ =>
    (spanFrom_finds hstart).bind fun _ hspan => .pure ⟨hspan, hvalue⟩

theorem stmtStep_finds (hs : Finds tokens (Stmt.Placed (.ofTokens tokens)) s) :
    Finds tokens (Stmt.Placed (.ofTokens tokens)) (stmtStep .standard s) := by
  refine kind_blames.bind fun k _ => ?_
  cases Grammar.standard.form? k with
  | none => exact expression_finds
  | some form =>
    cases form with
    | declaration => exact declaration_finds
    | branch => exact branch_finds hs
    | block => exact (block_finds hs).bind fun body hbody => .pure ⟨hbody.2, hbody.1⟩
    | function => exact function_finds hs
    | returning => exact returning_finds
    | whileLoop => exact whileLoop_finds hs
    | forLoop => exact forLoop_finds hs
    | breaking => exact jump_finds (f := .breakLoop) fun _ => id
    | continuing => exact jump_finds (f := .continueLoop) fun _ => id
    | printing => exact printing_finds

theorem program_finds : Finds tokens (Program.Placed (.ofTokens tokens)) (program .standard) := by
  refine (on_keeps.many _ (on_keeps.stmt _ fun _ => stmtStep_finds)).bind fun stmts hstmts => ?_
  refine .bind .get fun c _ => .pure ?_
  refine ⟨fun f hf => ?_, placedStmts_iff.mpr fun s hs => hstmts s (List.mem_filter.mp hs).1⟩
  obtain ⟨s, hs, hsome⟩ := List.mem_filterMap.mp hf
  have hplaced := hstmts s hs
  cases s with
  | function =>
    cases hsome
    exact ⟨hplaced.1, hplaced.2.1, hplaced.2.2⟩
  | declare | assign | branch | whileLoop | forLoop | breakLoop | continueLoop | returnValue | print
  | block | expression | call => cases hsome

end Statements

end Reading

/-- The reading of a program fails at the start of a token, and it makes a tree that stands where the tokens
are. -/
theorem Program.ofTokens_ends {init : List Token} {place : Position} (h : tokens = init ++ [.ending place])
    (file : String) :
    Ends (Marks.ofTokens tokens).Admits (fun p _ => p.Placed (.ofTokens tokens)) (ofTokens file tokens) := by
  have hon : (Cursor.ofTokens file tokens).On tokens := by
    refine ⟨[], ?_⟩
    rw [h]
    simp [Cursor.ofTokens, Token.ending]
  exact (Reading.program_finds _ hon).imp fun _ _ _ hp => hp.2

end Numlet
