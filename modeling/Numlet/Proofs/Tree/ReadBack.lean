import Numlet.Proofs.Tree.Printing
import Numlet.Proofs.Tree.Reached

/-!
What is printed is read back, statement by statement. A statement is read from the lexemes that it is
printed to, whatever stands after them; only an `else` must not follow what may end with a branching.
-/
namespace Numlet
open Lexeme (sign ofWord rankOf firstKind)

namespace Reading

variable {α β : Type} {P : α → Prop} {Q : β → Prop} {c : Cursor} {p q r rest : List Lexeme}
  {written : Binary64 → String}

/-- The second reading starts before what is left ahead. -/
theorem Takes.next {m : Reading α} {k : α → Reading β} (h : Takes m c p P) (hc : c.lexemes = p ++ rest)
    (hk : ∀ a c', c.Moves p c' → c'.lexemes = rest → P a → Takes (k a) c' q Q) (hr : p ++ q = r) :
    Takes (m >>= k) c r Q :=
  h.bind (fun a c' hm ha => hk a c' hm (hm.lexemes_rest hc) ha) hr

/-- A form ends with its span. -/
theorem spanned_takes {f : Span → α} {start : Token} (h : ∀ span, P (f span)) :
    Takes (spanFrom start >>= fun span => pure (f span)) c [] P :=
  ((lastEnd_takes c).bind_pure (Q := fun _ => True) fun _ _ => trivial).bind_pure fun span _ => h span

section Marked

variable {mark : Kind} {m : Reading α} {k : Option α → Reading β}

/-- A part that stands after its mark. -/
theorem marked_takes (hc : c.lexemes = sign mark :: (p ++ rest))
    (hm : ∀ c', c.Moves [sign mark] c' → c'.lexemes = p ++ rest → Takes m c' p P)
    (hk : ∀ a c', c'.lexemes = rest → P a → Takes (k (some a)) c' q Q) :
    Takes (passed mark >>= fun b => if b = true then some <$> m >>= k else pure none >>= k) c
      (sign mark :: (p ++ q)) Q := by
  refine (passed_takes hc rfl).next hc (fun b c₁ hm₁ hc₁ hb => ?_) rfl
  subst hb
  have hsome : Takes (some <$> m) c₁ p fun x => ∃ a, x = some a ∧ P a :=
    (hm c₁ hm₁ hc₁).map fun a ha => ⟨a, rfl, ha⟩
  refine hsome.next hc₁ (fun x c₂ _ hc₂ hx => ?_) rfl
  obtain ⟨a, rfl, ha⟩ := hx
  exact hk a c₂ hc₂ ha

/-- A part that is left out with its mark. -/
theorem unmarked_takes (hkind : c.kind ≠ mark) (hk : Takes (k none) c q Q) :
    Takes (passed mark >>= fun b => if b = true then some <$> m >>= k else pure none >>= k) c q Q := by
  have hpassed : passed mark c = .ok false c := if_neg hkind
  exact hk.of_eq (bind_of_ok hpassed)

end Marked

theorem expr_takes (e : Expr) (h : e.Printable written) (hc : c.lexemes = e.printed written ++ rest)
    (hrest : rankOf rest = 0) :
    Takes (expr .standard .weakest) c (e.printed written) (·.unplaced = e.unplaced) :=
  ((e.printed_derives h).of_depth (Nat.zero_le _)).takes hc hrest

/-- An expression that may be missing before a token that begins none. -/
theorem unlessAt_takes {stop : Kind} {e : Option Expr} (h : PrintableExpr? written e)
    (hc : c.lexemes = printedExpr? written e ++ sign stop :: rest) (hstop : stop.begins = false)
    (hrest : rankOf (sign stop :: rest) = 0) :
    Takes (unlessAt stop (expr .standard .weakest)) c (printedExpr? written e)
      (fun x => x.map (·.unplaced) = e.map (·.unplaced)) := by
  cases e with
  | none =>
    have hk : c.kind = stop := Cursor.kind_of_lexemes hc
    exact ⟨none, c, if_pos hk, .refl c, rfl⟩
  | some e =>
    have hk : c.kind ≠ stop := (e.printed_derives (h e rfl)).kind_ne hc hstop
    refine Takes.of_eq (if_neg hk) ((expr_takes e (h e rfl) hc hrest).map fun a ha => ?_)
    simp [ha]

theorem typeAfter_takes {mark : Kind} (type : Option NumType)
    (hc : c.lexemes = printedType mark type ++ rest) (hrest : firstKind rest ≠ mark) :
    Takes (typeAfter mark) c (printedType mark type) (· = type) := by
  cases type with
  | none =>
    have hk : c.kind ≠ mark := by
      rw [Cursor.kind_eq, hc]
      exact hrest
    refine (passed_takes_nothing hk).bind (fun b c₁ _ hb => ?_) rfl
    subst hb
    exact .of_pure c₁ rfl
  | some type =>
    refine (passed_takes hc rfl).next hc (fun b c₁ _ hc₁ hb => ?_) rfl
    subst hb
    exact (numType_takes hc₁ type.isName_name type.ofName?_name).bind_pure fun t ht => by rw [ht]

theorem declaration_takes {name : String} {declared : Option NumType} {value : Option Expr} {span : Span}
    (h : (Stmt.declare name declared value span).Printable written)
    (hc : c.lexemes = (Stmt.declare name declared value span).printed written ++ rest) :
    Takes (declaration .standard) c ((Stmt.declare name declared value span).printed written)
      (·.unplaced = (Stmt.declare name declared value span).unplaced) := by
  obtain ⟨hname, hvalue⟩ := h
  simp only [Stmt.printed, List.cons_append, List.append_assoc, List.nil_append] at hc ⊢
  refine (take_takes hc).next hc (fun start c₁ _ hc₁ _ => ?_) rfl
  refine (expectOr_takes _ hc₁ hname).next hc₁ (fun word c₂ _ hc₂ hword => ?_) rfl
  have hmark : firstKind (printedValue written value ++ sign .semicolon :: rest) ≠ .colon := by
    cases value <;> exact Kind.noConfusion
  refine (typeAfter_takes declared hc₂ hmark).next hc₂ (fun type c₃ _ hc₃ htype => ?_) rfl
  have hword : word.value = name := congrArg Lexeme.value hword
  subst hword htype
  cases value with
  | none =>
    refine unmarked_takes (by rw [Cursor.kind_of_lexemes hc₃]; decide) ?_
    refine (expectOr_takes _ hc₃ rfl).next hc₃ (fun _ c₄ _ _ _ => ?_) rfl
    exact spanned_takes fun _ => rfl
  | some e =>
    refine marked_takes hc₃ (fun c' _ hc' => expr_takes e (hvalue e rfl) hc' rfl) fun a c₄ hc₄ ha => ?_
    refine (expectOr_takes _ hc₄ rfl).next hc₄ (fun _ c₅ _ _ _ => ?_) rfl
    exact spanned_takes fun _ => by simp [Stmt.unplaced, ha]

theorem returning_takes {value : Option Expr} {span : Span} (h : PrintableExpr? written value)
    (hc : c.lexemes = (Stmt.returnValue value span).printed written ++ rest) :
    Takes (returning .standard) c ((Stmt.returnValue value span).printed written)
      (·.unplaced = (Stmt.returnValue value span).unplaced) := by
  simp only [Stmt.printed, List.cons_append, List.append_assoc, List.nil_append] at hc ⊢
  refine (take_takes hc).next hc (fun start c₁ _ hc₁ _ => ?_) rfl
  refine (unlessAt_takes h hc₁ rfl rfl).next hc₁ (fun e c₂ _ hc₂ he => ?_) rfl
  refine (expect_takes hc₂ rfl).next hc₂ (fun _ c₃ _ _ _ => ?_) rfl
  exact spanned_takes fun _ => by simp [Stmt.unplaced, he]

theorem printing_takes {value : Expr} {span : Span} (h : value.Printable written)
    (hc : c.lexemes = (Stmt.print value span).printed written ++ rest) :
    Takes (printing .standard) c ((Stmt.print value span).printed written)
      (·.unplaced = (Stmt.print value span).unplaced) := by
  simp only [Stmt.printed, List.cons_append, List.append_assoc, List.nil_append] at hc ⊢
  refine (take_takes hc).next hc (fun start c₁ _ hc₁ _ => ?_) rfl
  refine (expr_takes value h hc₁ rfl).next hc₁ (fun e c₂ _ hc₂ he => ?_) rfl
  refine (expect_takes hc₂ rfl).next hc₂ (fun _ c₃ _ _ _ => ?_) rfl
  exact spanned_takes fun _ => by simp [Stmt.unplaced, he]

/-- An expression as a statement is told from its tree. -/
theorem expression_takes {e : Expr} (h : e.Printable written)
    (hc : c.lexemes = e.printed written ++ sign .semicolon :: rest) :
    Takes (expression .standard) c (e.printed written ++ [sign .semicolon])
      (·.unplaced = (Stmt.ofExpr e).unplaced) := by
  refine (expr_takes e h hc rfl).next hc (fun a c₁ _ hc₁ ha => ?_) rfl
  refine (expect_takes hc₁ rfl).bind_pure fun _ _ => ?_
  rw [Stmt.unplaced_ofExpr, Stmt.unplaced_ofExpr, ha]

/-- A word with a semicolon after it. -/
theorem jump_takes {word : Lexeme} {t : Stmt} {f : Span → Stmt} (hf : ∀ span, (f span).unplaced = t)
    (hc : c.lexemes = word :: sign .semicolon :: rest) :
    Takes (take >>= fun start => expect .semicolon >>= fun _ => spanFrom start >>= fun span => pure (f span))
      c [word, sign .semicolon] (·.unplaced = t) := by
  refine (take_takes hc).next hc (fun start c₁ _ hc₁ _ => ?_) rfl
  refine (expect_takes hc₁ rfl).next hc₁ (fun _ c₂ _ _ _ => ?_) rfl
  exact spanned_takes hf

theorem parameter_takes {p : Parameter} (h : IsName p.name)
    (hc : c.lexemes = ofWord p.name :: (printedType .colon p.declared ++ rest))
    (hrest : firstKind rest ≠ .colon) :
    Takes parameter c (ofWord p.name :: printedType .colon p.declared) (·.unplaced = p.unplaced) := by
  refine (expectOr_takes _ hc h).next hc (fun word c₁ _ hc₁ hword => ?_) rfl
  refine (typeAfter_takes p.declared hc₁ hrest).next hc₁ (fun type c₂ _ hc₂ htype => ?_)
    (List.append_nil _)
  have hword : word.value = p.name := congrArg Lexeme.value hword
  subst htype
  exact spanned_takes fun _ => by simp [Parameter.unplaced, hword]

theorem parameters_takes {c : Cursor} (ps : List Parameter) (message : String) (h : ∀ p ∈ ps, IsName p.name)
    (hc : c.lexemes = printedParameters ps ++ sign .closeParen :: rest) :
    Takes (many .closeParen (listItem parameter message)) c (printedParameters ps)
      (fun qs => qs.map (·.unplaced) = ps.map (·.unplaced)) := by
  match ps with
  | [] => exact (many_takes_nil _ (Cursor.kind_of_lexemes hc)).imp fun _ ha => by rw [ha]
  | [p] =>
    have hp := h p List.mem_cons_self
    have hk : c.kind ≠ .closeParen := by
      rw [(Cursor.kind_of_lexemes hc).trans hp]
      decide
    have hitem := listItem_takes_last (parameter_takes hp hc Kind.noConfusion) message hc rfl
    refine (many_takes_cons hk (List.cons_ne_nil _ _) hitem (fun c' hm => many_takes_nil _ ?_) ?_).imp ?_
    · exact Cursor.kind_of_lexemes (hm.lexemes_rest hc)
    · exact List.append_nil _
    · rintro _ ⟨a, as, rfl, ha, rfl⟩
      simp [ha]
  | p :: p' :: ps =>
    have hp := h p List.mem_cons_self
    have hk : c.kind ≠ .closeParen := by
      rw [(Cursor.kind_of_lexemes hc).trans hp]
      decide
    have hprinted : printedParameters (p :: p' :: ps) = ofWord p.name ::
      (printedType .colon p.declared ++ sign .comma :: printedParameters (p' :: ps)) := rfl
    simp only [hprinted, List.cons_append, List.append_assoc] at hc ⊢
    have hitem := listItem_takes_comma (parameter_takes hp hc Kind.noConfusion) message hc rfl
    have hrest (c' : Cursor) (hc' : c'.lexemes = printedParameters (p' :: ps) ++ sign .closeParen :: rest) :=
      parameters_takes (p' :: ps) message (fun q hq => h q (List.mem_cons_of_mem _ hq)) hc'
    refine (many_takes_cons hk (by simp) hitem
      (fun c' hm => hrest c' (hm.lexemes_rest (by simpa using hc)))).imp ?_
    rintro _ ⟨a, as, rfl, ha, has⟩
    rw [List.map_cons, List.map_cons, ha, has]

end Reading

section Blocks

variable (written : Binary64 → String)

/-- The reading gets a statement back from the lexemes that it is printed to, with fewer than the given
number of them ahead. -/
def Stmt.Restored (read : Reading Stmt) (n : Nat) (s : Stmt) : Prop :=
  ∀ ⦃c : Cursor⦄ ⦃rest : List Lexeme⦄, c.remaining < n → c.lexemes = s.printed written ++ rest →
    (s.isBlock = true ∨ firstKind rest ≠ .elseWord) →
      Reading.Takes read c (s.printed written) (·.unplaced = s.unplaced)

/-- A token that begins a statement. -/
def Kind.opensStmt (k : Kind) : Bool := k.begins || (Grammar.standard.form? k).isSome

end Blocks

section Blocks

variable {written : Binary64 → String} {n : Nat} {read : Reading Stmt} {c : Cursor} {rest : List Lexeme}
  {s : Stmt}

theorem Stmt.ofExpr_of_isValue {e : Expr} (h : e.isValue = true) : ofExpr e = .expression e e.span := by
  cases e with
  | assign | call => cases h
  | literal | var | binary | unary | update | convert => rfl

theorem Expr.printed_opens {e : Expr} (h : e.Printable written) (rest : List Lexeme) :
    (firstKind (e.printed written ++ rest)).begins = true := by
  obtain ⟨first, ls, hprinted, hfirst⟩ := (e.printed_derives h).begins
  rw [hprinted]
  exact hfirst

theorem Stmt.printed_opens (h : s.Printable written) (rest : List Lexeme) :
    (firstKind (s.printed written ++ rest)).opensStmt = true := by
  have hexpr : ∀ {e : Expr}, e.Printable written →
      (firstKind ((e.printed written ++ [sign .semicolon]) ++ rest)).opensStmt = true := by
    intro e he
    rw [List.append_assoc, Kind.opensStmt, Expr.printed_opens he]
    rfl
  cases s with
  | function | declare | branch | whileLoop | forLoop | breakLoop | continueLoop | returnValue | print
  | block => rfl
  | assign => exact hexpr (e := .assign ..) h
  | call => exact hexpr (e := .call ..) h
  | expression => exact hexpr h.2

theorem Stmt.printed_ne_nil (h : s.Printable written) : s.printed written ≠ [] := by
  intro hnil
  have hopens := printed_opens h []
  rw [hnil] at hopens
  exact absurd hopens (by decide)

theorem firstKind_printedStmts_ne_else {ss : List Stmt} (h : PrintableStmts written ss)
    (hrest : firstKind rest ≠ .elseWord) : firstKind (printedStmts written ss ++ rest) ≠ .elseWord := by
  cases ss with
  | nil => exact hrest
  | cons s ss =>
    intro hk
    have hopens := Stmt.printed_opens h.1 (printedStmts written ss ++ rest)
    rw [← List.append_assoc, ← printedStmts, hk] at hopens
    exact absurd hopens (by decide)

namespace Reading

/-- Statements one after another, up to the mark at their end. -/
theorem stmts_takes {stop : Kind} {item : Reading Stmt} (hstop : stop.opensStmt = false)
    (helse : stop ≠ .elseWord)
    (hitem : ∀ c : Cursor, c.kind ≠ .eof → item c = read c) (ss : List Stmt) (h : PrintableStmts written ss)
    (hread : ∀ s ∈ ss, s.Restored written read n) (hn : c.remaining < n)
    (hc : c.lexemes = printedStmts written ss ++ rest) (hrest : firstKind rest = stop) :
    Takes (many stop item) c (printedStmts written ss) (fun as => unplacedStmts as = unplacedStmts ss) := by
  induction ss generalizing c with
  | nil =>
    have hk : c.kind = stop := by
      rw [Cursor.kind_eq, hc]
      exact hrest
    exact (many_takes_nil item hk).imp fun as has => by rw [has]
  | cons s ss ih =>
    rw [printedStmts, List.append_assoc] at hc
    have hopens : c.kind.opensStmt = true := by
      rw [Cursor.kind_eq, hc]
      exact Stmt.printed_opens h.1 _
    have hk : c.kind ≠ stop := by
      intro hk
      rw [hk, hstop] at hopens
      cases hopens
    have heof : c.kind ≠ .eof := by
      intro hk
      rw [hk] at hopens
      cases hopens
    have hnext := firstKind_printedStmts_ne_else h.2 (hrest ▸ helse)
    have hs : Takes item c (s.printed written) (·.unplaced = s.unplaced) :=
      .of_eq (hitem c heof) (hread s List.mem_cons_self hn hc (.inr hnext))
    have hrun (c' : Cursor) (hm : c.Moves (s.printed written) c') :=
      ih h.2 (fun s hs => hread s (List.mem_cons_of_mem _ hs))
        (Nat.lt_trans (hm.remaining_lt (Stmt.printed_ne_nil h.1)) hn) (hm.lexemes_rest hc)
    refine (many_takes_cons hk (Stmt.printed_ne_nil h.1) hs hrun rfl).imp ?_
    rintro _ ⟨a, as, rfl, ha, has⟩
    rw [unplacedStmts, unplacedStmts, ha, has]

/-- Statements in braces. -/
theorem block_takes (ss : List Stmt) (h : PrintableStmts written ss)
    (hread : ∀ s ∈ ss, s.Restored written read n) (hn : c.remaining ≤ n)
    (hc : c.lexemes = sign .openCurly :: (printedStmts written ss ++ sign .closeCurly :: rest)) :
    Takes (block read) c (sign .openCurly :: (printedStmts written ss ++ [sign .closeCurly]))
      (fun b => unplacedStmts b.1 = unplacedStmts ss) := by
  refine (expectOr_takes _ hc rfl).next hc (fun start c₁ hm hc₁ _ => ?_) rfl
  have hn₁ : c₁.remaining < n := Nat.lt_of_lt_of_le (hm.remaining_lt (List.cons_ne_nil _ _)) hn
  refine (stmts_takes rfl Kind.noConfusion (fun c' heof => ?_) ss h hread hn₁ hc₁ rfl).next hc₁
    (fun body c₂ _ hc₂ hbody => ?_) rfl
  · exact (bind_of_ok (rfl : kind c' = .ok c'.kind c')).trans (by rw [if_neg heof])
  · refine (expect_takes hc₂ rfl).next hc₂ (fun _ c₃ _ _ _ => ?_) rfl
    exact spanned_takes fun _ => hbody

theorem function_takes {name : String} {parameters : List Parameter} {result : Option NumType}
    {body : List Stmt} {bodySpan span : Span}
    (h : (Stmt.function name parameters result body bodySpan span).Printable written)
    (hread : ∀ s ∈ body, s.Restored written read n) (hn : c.remaining ≤ n)
    (hc : c.lexemes = (Stmt.function name parameters result body bodySpan span).printed written ++ rest) :
    Takes (function read) c ((Stmt.function name parameters result body bodySpan span).printed written)
      (·.unplaced = (Stmt.function name parameters result body bodySpan span).unplaced) := by
  obtain ⟨hname, hparameters, hbody⟩ := h
  simp only [Stmt.printed, List.cons_append, List.append_assoc, List.nil_append] at hc ⊢
  refine (take_takes hc).next hc (fun start c₁ hm₁ hc₁ _ => ?_) rfl
  refine (expectOr_takes _ hc₁ hname).next hc₁ (fun word c₂ hm₂ hc₂ hword => ?_) rfl
  refine (expect_takes hc₂ rfl).next hc₂ (fun _ c₃ hm₃ hc₃ _ => ?_) rfl
  refine (parameters_takes parameters _ hparameters hc₃).next hc₃ (fun ps c₄ hm₄ hc₄ hps => ?_) rfl
  refine (expect_takes hc₄ rfl).next hc₄ (fun _ c₅ hm₅ hc₅ _ => ?_) rfl
  refine (typeAfter_takes result hc₅ Kind.noConfusion).next hc₅ (fun type c₆ hm₆ hc₆ htype => ?_) rfl
  have hn₆ : c₆.remaining ≤ n := by
    have hm := ((((hm₁.trans hm₂).trans hm₃).trans hm₄).trans hm₅).trans hm₆
    have := hm.remaining_eq
    omega
  refine (block_takes body hbody hread hn₆ hc₆).next
    (by simpa only [List.cons_append, List.append_assoc, List.nil_append] using hc₆)
    (fun b c₇ _ _ hb => ?_) (List.append_nil _)
  have hword : word.value = name := congrArg Lexeme.value hword
  subst hword htype
  exact spanned_takes fun _ => by simp [Stmt.unplaced, hps, hb]

theorem rankOf_block {s : Stmt} (h : s.isBlock = true) (rest : List Lexeme) :
    rankOf (s.printed written ++ rest) = 0 := by
  cases s with
  | block => rfl
  | function | declare | assign | branch | whileLoop | forLoop | breakLoop | continueLoop | returnValue
  | print | expression | call => cases h

/-- A word, a condition and a block, and what is read behind them. -/
theorem headed_takes {β : Type} {Q : β → Prop} {q : List Lexeme} {word : Lexeme} {condition : Expr}
    {body : Stmt} {k : Token → Expr → Stmt → Reading β} (hcondition : condition.Printable written)
    (hblock : body.isBlock = true) (hbody : body.Restored written read n) (hn : c.remaining ≤ n)
    (hc : c.lexemes = word :: (condition.printed written ++ (body.printed written ++ rest)))
    (hk : ∀ start e s c', c'.remaining < n → c'.lexemes = rest → e.unplaced = condition.unplaced →
      s.unplaced = body.unplaced → Takes (k start e s) c' q Q) :
    Takes (take >>= fun start => expr .standard .weakest >>= fun e => read >>= k start e) c
      (word :: (condition.printed written ++ (body.printed written ++ q))) Q := by
  refine (take_takes hc).next hc (fun start c₁ hm₁ hc₁ _ => ?_) rfl
  have hn₁ : c₁.remaining < n := Nat.lt_of_lt_of_le (hm₁.remaining_lt (List.cons_ne_nil _ _)) hn
  refine (expr_takes condition hcondition hc₁ (rankOf_block hblock _)).next hc₁
    (fun e c₂ hm₂ hc₂ he => ?_) rfl
  have hn₂ : c₂.remaining < n := by
    have := hm₂.remaining_eq
    omega
  refine (hbody hn₂ hc₂ (.inl hblock)).next hc₂ (fun s c₃ hm₃ hc₃ hs => ?_) rfl
  have hn₃ : c₃.remaining < n := by
    have := hm₃.remaining_eq
    omega
  exact hk start e s c₃ hn₃ hc₃ he hs

theorem branch_takes {condition : Expr} {yes : Stmt} {no : Option Stmt} {span : Span}
    (h : (Stmt.branch condition yes no span).Printable written) (hyes : yes.Restored written read n)
    (hno : ∀ s ∈ no, s.Restored written read n) (hn : c.remaining ≤ n)
    (hrest : firstKind rest ≠ .elseWord)
    (hc : c.lexemes = (Stmt.branch condition yes no span).printed written ++ rest) :
    Takes (branch .standard read) c ((Stmt.branch condition yes no span).printed written)
      (·.unplaced = (Stmt.branch condition yes no span).unplaced) := by
  obtain ⟨hcondition, ⟨hblock, -⟩, -⟩ := h
  simp only [Stmt.printed, List.cons_append, List.append_assoc] at hc ⊢
  refine headed_takes hcondition hblock hyes hn hc fun start e first c₁ hn₁ hc₁ he hfirst => ?_
  cases no with
  | none =>
    refine unmarked_takes ?_ (spanned_takes fun _ => ?_)
    · rw [Cursor.kind_eq, hc₁]
      exact hrest
    · simp [Stmt.unplaced, unplacedStmt?, he, hfirst]
  | some s =>
    rw [printedElse] at hc₁ ⊢
    rw [← List.append_nil (s.printed written)]
    refine marked_takes (P := (·.unplaced = s.unplaced)) hc₁ (fun c' hm' hc' => ?_) fun second c₂ _ hsecond => spanned_takes fun _ => ?_
    · have hn' : c'.remaining < n := by
        have := hm'.remaining_eq
        omega
      exact hno s rfl hn' hc' (.inr hrest)
    · simp [Stmt.unplaced, unplacedStmt?, he, hfirst, hsecond]

theorem whileLoop_takes {condition : Expr} {body : Stmt} {span : Span}
    (h : (Stmt.whileLoop condition body span).Printable written) (hbody : body.Restored written read n)
    (hn : c.remaining ≤ n) (hc : c.lexemes = (Stmt.whileLoop condition body span).printed written ++ rest) :
    Takes (whileLoop .standard read) c ((Stmt.whileLoop condition body span).printed written)
      (·.unplaced = (Stmt.whileLoop condition body span).unplaced) := by
  obtain ⟨hcondition, hblock, -⟩ := h
  simp only [Stmt.printed, List.cons_append, List.append_assoc] at hc ⊢
  rw [← List.append_nil (body.printed written)]
  refine headed_takes hcondition hblock hbody hn hc fun start e s c₁ _ _ he hs => ?_
  exact spanned_takes fun _ => by simp [Stmt.unplaced, he, hs]

theorem loopStart_run (c : Cursor) : loopStart .standard c =
    (match c.kind with
      | .semicolon => take >>= fun _ => pure none
      | .letWord => some <$> declaration .standard
      | _ => some <$> expression .standard) c := rfl

theorem loopStart_of_begins (h : c.kind.begins = true) :
    loopStart .standard c = (some <$> expression .standard) c := by
  rw [loopStart_run]
  generalize c.kind = k at h
  split
  · cases h
  · cases h
  · rfl

/-- The first part of a loop's header is a declaration or an expression. -/
theorem loopStart_takes {start : Option Stmt} (h : PrintableStart written start)
    (hc : c.lexemes = printedStart written start ++ rest) :
    Takes (loopStart .standard) c (printedStart written start)
      (fun s => unplacedStmt? s = unplacedStmt? start) := by
  -- An expression is read as the statement that is told from its tree.
  have hexpr : ∀ {e : Expr}, e.Printable written → c.lexemes = e.printed written ++ [sign .semicolon] ++ rest →
      Takes (loopStart .standard) c (e.printed written ++ [sign .semicolon])
        (fun s => unplacedStmt? s = some (Stmt.ofExpr e).unplaced) := by
    intro e he hc
    rw [List.append_assoc] at hc
    have hk : c.kind.begins = true := by
      rw [Cursor.kind_eq, hc]
      exact Expr.printed_opens he _
    refine Takes.of_eq (loopStart_of_begins hk) ((expression_takes he hc).map fun a ha => ?_)
    rw [unplacedStmt?, ha]
  cases start with
  | none =>
    refine Takes.of_eq (n := take >>= fun _ => pure none) ?_ ((take_takes hc).bind_pure fun _ _ => rfl)
    rw [loopStart_run, Cursor.kind_of_lexemes hc]
    rfl
  | some s =>
    cases s with
    | declare =>
      refine Takes.of_eq (n := some <$> declaration .standard) ?_ ((declaration_takes h.2 hc).map ?_)
      · rw [loopStart_run, Cursor.kind_of_lexemes hc]
        rfl
      · intro a ha
        rw [unplacedStmt?, unplacedStmt?, ha]
    | assign => exact hexpr (e := .assign ..) h.2 hc
    | call => exact hexpr (e := .call ..) h.2 hc
    | expression value span =>
      refine (hexpr h.2.2 hc).imp fun a ha => ?_
      rw [ha, Stmt.ofExpr_of_isValue h.2.1]
      rfl
    | function | branch | whileLoop | forLoop | breakLoop | continueLoop | returnValue | print | block =>
      cases h.1

theorem forLoop_takes {start : Option Stmt} {condition step : Option Expr} {body : Stmt} {span : Span}
    (h : (Stmt.forLoop start condition step body span).Printable written)
    (hbody : body.Restored written read n) (hn : c.remaining ≤ n)
    (hc : c.lexemes = (Stmt.forLoop start condition step body span).printed written ++ rest) :
    Takes (forLoop .standard read) c ((Stmt.forLoop start condition step body span).printed written)
      (·.unplaced = (Stmt.forLoop start condition step body span).unplaced) := by
  obtain ⟨hstart, hcondition, hstep, hblock, -⟩ := h
  simp only [Stmt.printed, List.cons_append, List.append_assoc] at hc ⊢
  refine (take_takes hc).next hc (fun word c₁ hm₁ hc₁ _ => ?_) rfl
  refine (expect_takes hc₁ rfl).next hc₁ (fun _ c₂ hm₂ hc₂ _ => ?_) rfl
  refine (loopStart_takes hstart hc₂).next hc₂ (fun s c₃ hm₃ hc₃ hs => ?_) rfl
  refine (unlessAt_takes hcondition hc₃ rfl rfl).next hc₃ (fun e c₄ hm₄ hc₄ he => ?_) rfl
  refine (expect_takes hc₄ rfl).next hc₄ (fun _ c₅ hm₅ hc₅ _ => ?_) rfl
  refine (unlessAt_takes hstep hc₅ rfl rfl).next hc₅ (fun e' c₆ hm₆ hc₆ he' => ?_) rfl
  refine (expect_takes hc₆ rfl).next hc₆ (fun _ c₇ hm₇ hc₇ _ => ?_) rfl
  have hn₇ : c₇.remaining < n := by
    have hm := ((((hm₂.trans hm₃).trans hm₄).trans hm₅).trans hm₆).trans hm₇
    have := hm.remaining_eq
    have := hm₁.remaining_lt (List.cons_ne_nil _ _)
    omega
  refine (hbody hn₇ hc₇ (.inl hblock)).next hc₇ (fun b c₈ _ _ hb => ?_) (List.append_nil _)
  exact spanned_takes fun _ => by simp [Stmt.unplaced, hs, he, he', hb]

/-- The readings of the forms of statements. -/
def formed (read : Reading Stmt) : Option Form → Reading Stmt
  | none => expression .standard
  | some .declaration => declaration .standard
  | some .branch => branch .standard read
  | some .block => block read >>= fun b => pure (.block b.1 b.2)
  | some .function => function read
  | some .returning => returning .standard
  | some .whileLoop => whileLoop .standard read
  | some .forLoop => forLoop .standard read
  | some .breaking => breaking
  | some .continuing => continuing
  | some .printing => printing .standard

theorem stmtStep_run (read : Reading Stmt) (c : Cursor) :
    stmtStep .standard read c = formed read (Grammar.standard.form? c.kind) c := by
  unfold stmtStep
  refine (bind_of_ok (rfl : kind c = .ok c.kind c)).trans ?_
  cases Grammar.standard.form? c.kind with
  | none => rfl
  | some form => cases form <;> rfl

/-- Statements are read behind a cursor. -/
def stmtBehind (c : Cursor) : Reading Stmt := fun c' =>
  if c'.remaining < c.remaining then stmt .standard c' else refuse c'

theorem stmt_eq (c : Cursor) : stmt .standard c = stmtStep .standard (stmtBehind c) c := by
  rw [stmt]
  rfl

/-- A statement is told by its first token. -/
theorem stmt_takes_formed {k : Kind} {P : Stmt → Prop} {p : List Lexeme} (hk : c.kind = k)
    (h : Takes (formed (stmtBehind c) (Grammar.standard.form? k)) c p P) : Takes (stmt .standard) c p P := by
  subst hk
  exact h.of_eq ((stmt_eq c).trans (stmtStep_run _ c))

/-- A token that begins an expression is that of no other form. -/
theorem form?_of_begins {k : Kind} (h : k.begins = true) : Grammar.standard.form? k = none := by
  revert h
  cases k <;> decide

theorem stmt_takes_expression {e : Expr} (h : e.Printable written)
    (hc : c.lexemes = e.printed written ++ [sign .semicolon] ++ rest) :
    Takes (stmt .standard) c (e.printed written ++ [sign .semicolon])
      (·.unplaced = (Stmt.ofExpr e).unplaced) := by
  rw [List.append_assoc] at hc
  have hk : c.kind.begins = true := by
    rw [Cursor.kind_eq, hc]
    exact Expr.printed_opens h _
  refine stmt_takes_formed rfl ?_
  rw [form?_of_begins hk]
  exact expression_takes h hc

end Reading

/-- What is read back is so behind every cursor. -/
theorem Stmt.Restored.behind (h : ∀ n, s.Restored written (Reading.stmt .standard) n) (c : Cursor) :
    s.Restored written (Reading.stmtBehind c) c.remaining := by
  intro c' rest hlt hc hrest
  exact (h _ (Nat.lt_succ_self _) hc hrest).of_eq (if_pos hlt)

end Blocks

open Reading

section Statements

variable {written : Binary64 → String}

mutual

theorem Stmt.restored (s : Stmt) (h : s.Printable written) (n : Nat) :
    s.Restored written (stmt .standard) n := by
  intro c rest hn hc hrest
  match s with
  | .function name parameters result body bodySpan span =>
    have hbody := fun s hs => Stmt.Restored.behind (stmts_restored body h.2.2 s hs) c
    exact stmt_takes_formed (Cursor.kind_of_lexemes hc) (function_takes h hbody (Nat.le_refl _) hc)
  | .declare name declared value span =>
    exact stmt_takes_formed (Cursor.kind_of_lexemes hc) (declaration_takes h hc)
  | .assign target value span => exact stmt_takes_expression (e := .assign target value span) h hc
  | .branch condition yes no span =>
    have hyes := Stmt.Restored.behind (yes.restored h.2.1.2) c
    have hno := fun s hs => Stmt.Restored.behind (else_restored no h.2.2 s hs) c
    have hrest := hrest.resolve_left Bool.noConfusion
    exact stmt_takes_formed (Cursor.kind_of_lexemes hc) (branch_takes h hyes hno (Nat.le_refl _) hrest hc)
  | .whileLoop condition body span =>
    have hbody := Stmt.Restored.behind (body.restored h.2.2) c
    exact stmt_takes_formed (Cursor.kind_of_lexemes hc) (whileLoop_takes h hbody (Nat.le_refl _) hc)
  | .forLoop start condition step body span =>
    have hbody := Stmt.Restored.behind (body.restored h.2.2.2.2) c
    exact stmt_takes_formed (Cursor.kind_of_lexemes hc) (forLoop_takes h hbody (Nat.le_refl _) hc)
  | .breakLoop span =>
    exact stmt_takes_formed (Cursor.kind_of_lexemes hc) (jump_takes (fun _ => rfl) hc)
  | .continueLoop span =>
    exact stmt_takes_formed (Cursor.kind_of_lexemes hc) (jump_takes (fun _ => rfl) hc)
  | .returnValue value span =>
    exact stmt_takes_formed (Cursor.kind_of_lexemes hc) (returning_takes h hc)
  | .print value span => exact stmt_takes_formed (Cursor.kind_of_lexemes hc) (printing_takes h hc)
  | .block body span =>
    have hbody := fun s hs => Stmt.Restored.behind (stmts_restored body h s hs) c
    refine stmt_takes_formed (Cursor.kind_of_lexemes hc) ?_
    simp only [Stmt.printed, List.cons_append, List.append_assoc, List.nil_append] at hc ⊢
    refine (block_takes body h hbody (Nat.le_refl _) hc).bind_pure fun b hb => ?_
    simp [Stmt.unplaced, hb]
  | .expression value span =>
    refine (stmt_takes_expression h.2 hc).imp fun a ha => ?_
    rw [ha, Stmt.ofExpr_of_isValue h.1]
    rfl
  | .call callee arguments span => exact stmt_takes_expression (e := .call callee arguments span) h hc

theorem else_restored (no : Option Stmt) (h : PrintableElse written no) :
    ∀ s ∈ no, ∀ n, s.Restored written (stmt .standard) n := by
  match no with
  | none =>
    intro s hs
    cases hs
  | some first =>
    have hfirst := first.restored h.2
    intro s hs
    cases hs
    exact hfirst

theorem stmts_restored (ss : List Stmt) (h : PrintableStmts written ss) :
    ∀ s ∈ ss, ∀ n, s.Restored written (stmt .standard) n := by
  match ss with
  | [] =>
    intro s hs
    cases hs
  | first :: ss =>
    have hfirst := first.restored h.1
    have hss := stmts_restored ss h.2
    intro s hs
    cases hs with
    | head => exact hfirst
    | tail _ hs => exact hss s hs

end

end Statements

end Numlet
