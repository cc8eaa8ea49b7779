import Numlet.Proofs.Alike
import Numlet.Proofs.Tree.Moves

/-!
Two readings of the same lexemes, that may stand at other places, read the same tree up to places or refuse the
same lexeme. A reader looks at the places of tokens only to note them.
-/
namespace Numlet

/-- Cursors before the same lexemes. -/
structure Cursor.SameText (c d : Cursor) : Prop where
  lexemes : d.lexemes = c.lexemes
  endValue : d.endValue = c.endValue

namespace Cursor.SameText

variable {c d : Cursor} (h : c.SameText d)

include h

theorem kind_eq : d.kind = c.kind := by
  rw [d.kind_eq, c.kind_eq, h.lexemes]

theorem remaining_eq : d.remaining = c.remaining := by
  have hlength := congrArg List.length h.lexemes
  rwa [Cursor.lexemes, Cursor.lexemes, List.length_map, List.length_map, ← d.remaining_eq,
    ← c.remaining_eq] at hlength

theorem current_lexeme : d.current.lexeme = c.current.lexeme := by
  cases hc : c.lexemes with
  | nil =>
    have hcurrent : ∀ e : Cursor, e.lexemes = [] → e.current.lexeme = ⟨.eof, e.endValue⟩ := by
      intro e he
      unfold current
      rw [List.map_eq_nil_iff.mp he]
      rfl
    rw [hcurrent c hc, hcurrent d (h.lexemes.trans hc), h.endValue]
  | cons l rest =>
    rw [Cursor.current_lexeme hc, Cursor.current_lexeme (h.lexemes.trans hc)]

theorem current_value : d.current.value = c.current.value :=
  congrArg Lexeme.value h.current_lexeme

theorem advance : c.advance.SameText d.advance := by
  have hlexemes : ∀ e : Cursor, e.advance.lexemes = e.lexemes.tail ∧ e.advance.endValue = e.endValue := by
    intro e
    unfold Cursor.advance Cursor.lexemes
    split
    · next he => simp [he]
    · next he => simp [he]
  obtain ⟨hc, hce⟩ := hlexemes c
  obtain ⟨hd, hde⟩ := hlexemes d
  exact ⟨by rw [hd, hc, h.lexemes], by rw [hde, hce, h.endValue]⟩

end Cursor.SameText

/-- Trees that are the same up to places are both names or neither is. -/
theorem Expr.var_cases {e e' : Expr} (h : e'.unplaced = e.unplaced) :
    (∃ name span span', e = .var name span ∧ e' = .var name span') ∨
      (∀ name span, e ≠ .var name span) ∧ ∀ name span, e' ≠ .var name span := by
  have hvar : ∀ (e : Expr) name, e.unplaced = .var name .nowhere → ∃ span, e = .var name span := by
    intro e name he
    cases e with
    | var other span =>
      cases he
      exact ⟨span, rfl⟩
    | literal | binary | unary | update | assign | convert | call => cases he
  by_cases hc : ∃ name span, e = .var name span
  · obtain ⟨name, span, rfl⟩ := hc
    obtain ⟨span', rfl⟩ := hvar e' name h
    exact .inl ⟨name, span, span', rfl, rfl⟩
  · refine .inr ⟨fun name span he => hc ⟨name, span, he⟩, ?_⟩
    rintro name span rfl
    obtain ⟨span', he⟩ := hvar e name h.symm
    exact hc ⟨name, span', he⟩

namespace Reading

variable {α β γ : Type}

section Steps

variable {Q : α → α → Prop}

theorem kind_alike : RunsAlike Cursor.SameText (fun a b => b = a) kind kind :=
  fun _ _ h => ⟨h.kind_eq, h⟩

theorem take_alike :
    RunsAlike Cursor.SameText (fun a b => b.lexeme = a.lexeme) take take :=
  fun _ _ h => ⟨h.current_lexeme, h.advance⟩

theorem refuse_alike {Q : α → β → Prop} : RunsAlike Cursor.SameText Q refuse refuse :=
  fun _ _ h => ⟨congrArg Fault.unexpectedToken h.current_value, h⟩

theorem complain_alike {Q : α → β → Prop} (message : String) :
    RunsAlike Cursor.SameText Q (complain message) (complain message) :=
  fun _ _ h => ⟨congrArg (Fault.unexpectedTokenDetailed · message) h.current_value, h⟩

/-- Readers that choose by the current kind choose alike. -/
theorem atKind_alike {Q : α → β → Prop} (k : Kind) {m m' : Reading α} {n n' : Reading β}
    (h : RunsAlike Cursor.SameText Q m n) (h' : RunsAlike Cursor.SameText Q m' n') :
    RunsAlike Cursor.SameText Q (fun c => if c.kind = k then m c else m' c)
      (fun c => if c.kind = k then n c else n' c) := by
  intro c d hcd
  simp only [hcd.kind_eq]
  split
  · exact h c d hcd
  · exact h' c d hcd

theorem expect_alike (k : Kind) :
    RunsAlike Cursor.SameText (fun a b => b.lexeme = a.lexeme) (expect k) (expect k) :=
  atKind_alike k take_alike refuse_alike

theorem expectOr_alike (k : Kind) (message : String) :
    RunsAlike Cursor.SameText (fun a b => b.lexeme = a.lexeme) (expectOr k message)
      (expectOr k message) :=
  atKind_alike k take_alike (complain_alike message)

theorem passed_alike (k : Kind) :
    RunsAlike Cursor.SameText (fun a b => b = a) (passed k) (passed k) :=
  atKind_alike k (m := fun c => .ok true c.advance) (n := fun c => .ok true c.advance)
    (fun _ _ h => ⟨rfl, h.advance⟩) (.pure rfl)

theorem lastEnd_alike : RunsAlike Cursor.SameText (fun _ _ => True) lastEnd lastEnd :=
  fun _ _ h => ⟨trivial, h⟩

theorem spanFrom_alike (t t' : Token) :
    RunsAlike Cursor.SameText (fun _ _ => True) (spanFrom t) (spanFrom t') :=
  fun _ _ h => ⟨trivial, h⟩

variable {f : α → γ} {m n : Reading α}

theorem unlessAt_alike (k : Kind) (h : RunsAlike Cursor.SameText (fun a b => f b = f a) m n) :
    RunsAlike Cursor.SameText (fun a b => b.map f = a.map f) (unlessAt k m) (unlessAt k n) :=
  atKind_alike k (.pure rfl) (.map h fun _ _ hab => congrArg some hab)

theorem many_alike (stop : Kind) (h : RunsAlike Cursor.SameText (fun a b => f b = f a) m n) :
    RunsAlike Cursor.SameText (fun a b => b.map f = a.map f) (many stop m) (many stop n) := by
  intro c d hcd
  -- The recursion is on the tokens ahead, of which both cursors have as many.
  induction hremaining : c.remaining using Nat.strongRecOn generalizing c d with
  | ind k ih =>
    rw [many, many, hcd.kind_eq]
    split
    · exact ⟨rfl, hcd⟩
    obtain ⟨a, c', b, d', hm, hn, hab, hcd'⟩ | ⟨e, c', e', d', hm, hn, hfault⟩ := (h c d hcd).cases
    · rw [hm, hn]
      simp only [hcd.remaining_eq, hcd'.remaining_eq]
      split
      · next hless =>
        obtain ⟨as, c'', bs, d'', hms, hns, habs, hcd''⟩ | ⟨e, c'', e', d'', hms, hns, hfault⟩ :=
          (ih _ (hremaining ▸ hless) c' d' hcd' rfl).cases
        · rw [hms, hns]
          exact ⟨by simp only [List.map_cons, hab, habs], hcd''⟩
        · rw [hms, hns]
          exact hfault
      · exact refuse_alike c' d' hcd'
    · rw [hm, hn]
      exact hfault

theorem commaList_alike (message : String)
    (h : RunsAlike Cursor.SameText (fun a b => f b = f a) m n) :
    RunsAlike Cursor.SameText (fun a b => b.map f = a.map f) (commaList m message)
      (commaList n message) := by
  unfold commaList
  refine many_alike .closeParen (.bind h fun a b hab => .bind (passed_alike .comma) ?_)
  rintro _ comma rfl
  refine .bind kind_alike ?_
  rintro _ k rfl
  exact .ite Iff.rfl (.bind (complain_alike (Q := fun _ _ => True) message) fun _ _ _ => .pure hab)
    (.pure hab)

end Steps

section Expressions

variable {g : Grammar} {read read' : ExprReader}
  (hread : ∀ level, RunsAlike Cursor.SameText (fun a b => b.unplaced = a.unplaced) (read level)
    (read' level))

theorem primary_alike :
    RunsAlike Cursor.SameText (fun a b => b.unplaced = a.unplaced) primary primary := by
  unfold primary
  refine .bind .get fun c d hcd => ?_
  have hkind : d.current.kind = c.current.kind := hcd.kind_eq
  simp only [hkind, hcd.current_value]
  split
  · split
    · exact .bind take_alike fun _ _ _ => .pure rfl
    · exact .throw rfl
  · exact .bind take_alike fun _ _ _ => .pure rfl
  · exact .bind take_alike fun _ _ _ => .pure rfl
  · exact .bind take_alike fun _ _ _ => .pure rfl
  · exact refuse_alike

include hread in
theorem unary_alike :
    RunsAlike Cursor.SameText (fun a b => b.unplaced = a.unplaced) (unary read) (unary read') := by
  refine .bind take_alike fun sign sign' hsign => .bind (hread _) fun operand operand' ho => .pure ?_
  have hkind : sign'.kind = sign.kind := congrArg Lexeme.kind hsign
  simp only [Expr.unplaced, hkind, ho]

include hread in
theorem group_alike :
    RunsAlike Cursor.SameText (fun a b => b.unplaced = a.unplaced) (group read) (group read') :=
  .bind take_alike fun _ _ _ => .bind (hread _) fun _ _ h =>
    .bind (expect_alike _) fun _ _ _ => .pure h

include hread in
theorem binary_alike {left left' : Expr} (hleft : left'.unplaced = left.unplaced) (level : Level) :
    RunsAlike Cursor.SameText (fun a b => b.unplaced = a.unplaced) (binary read left level)
      (binary read' left' level) := by
  refine .bind take_alike fun sign sign' hsign => ?_
  have hkind : sign'.kind = sign.kind := congrArg Lexeme.kind hsign
  have hvalue : sign'.value = sign.value := congrArg Lexeme.value hsign
  rw [hkind]
  cases BinaryOp.ofKind? sign.kind with
  | none => exact .throw (congrArg Fault.unexpectedToken hvalue)
  | some op =>
    refine .bind (hread _) fun right right' hright => .pure ?_
    simp only [Expr.unplaced, hleft, hright]

include hread in
theorem assignment_alike {left left' : Expr} (hleft : left'.unplaced = left.unplaced) :
    RunsAlike Cursor.SameText (fun a b => b.unplaced = a.unplaced) (assignment read left)
      (assignment read' left') := by
  refine .bind take_alike fun sign sign' hsign => .bind (hread _) fun right right' hright => ?_
  have hkind : sign'.kind = sign.kind := congrArg Lexeme.kind hsign
  rw [hkind]
  cases BinaryOp.ofKind? sign.kind with
  | none => exact .pure (by simp only [Expr.unplaced, hleft, hright])
  | some op => exact .pure (by simp only [Expr.unplaced, hleft, hright])

theorem call_of_ne_var {left : Expr} (h : ∀ name span, left ≠ .var name span) :
    call read left = throw ⟨.unexpectedTokenDetailed "(" "only named functions can be called",
      left.span.start⟩ := by
  cases left with
  | var name span => exact absurd rfl (h name span)
  | literal | binary | unary | update | assign | convert | call => rfl

include hread in
theorem call_alike {left left' : Expr} (hleft : left'.unplaced = left.unplaced) :
    RunsAlike Cursor.SameText (fun a b => b.unplaced = a.unplaced) (call read left)
      (call read' left') := by
  obtain ⟨callee, span, span', rfl, rfl⟩ | ⟨hne, hne'⟩ := Expr.var_cases hleft
  · refine .bind take_alike fun _ _ _ => .bind (commaList_alike _ (hread _)) ?_
    intro arguments arguments' harguments
    refine .bind (expect_alike _) fun _ _ _ => .bind lastEnd_alike fun _ _ _ => .pure ?_
    simp only [Expr.unplaced, unplacedExprs_eq_map, harguments]
  · rw [call_of_ne_var hne, call_of_ne_var hne']
    exact .throw rfl

theorem update_alike {left left' : Expr} (hleft : left'.unplaced = left.unplaced) :
    RunsAlike Cursor.SameText (fun a b => b.unplaced = a.unplaced) (update left) (update left') := by
  refine .bind take_alike fun sign sign' hsign => ?_
  have hkind : sign'.kind = sign.kind := congrArg Lexeme.kind hsign
  have hvalue : sign'.value = sign.value := congrArg Lexeme.value hsign
  rw [hkind]
  obtain ⟨target, span, span', rfl, rfl⟩ | ⟨hne, hne'⟩ := Expr.var_cases hleft
  · exact .pure rfl
  · dsimp only
    split
    · next target span => exact absurd rfl (hne target span)
    · exact .throw (congrArg (Fault.unexpectedTokenDetailed · _) hvalue)

theorem numType_alike : RunsAlike Cursor.SameText (fun a b => b = a) numType numType := by
  refine .bind (expectOr_alike _ _) fun word word' hword => ?_
  have hvalue : word'.value = word.value := congrArg Lexeme.value hword
  rw [hvalue]
  cases NumType.ofName? word.value with
  | none => exact .throw rfl
  | some t => exact .pure rfl

theorem conversion_alike {left left' : Expr} (hleft : left'.unplaced = left.unplaced) :
    RunsAlike Cursor.SameText (fun a b => b.unplaced = a.unplaced) (conversion left)
      (conversion left') := by
  refine .bind take_alike fun _ _ _ => .bind numType_alike ?_
  rintro _ target rfl
  refine .bind lastEnd_alike fun _ _ _ => .pure ?_
  simp only [Expr.unplaced, hleft]

include hread in
theorem opening_alike :
    RunsAlike Cursor.SameText (fun a b => b.unplaced = a.unplaced) (opening g read)
      (opening g read') := by
  refine .bind kind_alike ?_
  rintro _ k rfl
  cases g.opening? k with
  | none => exact refuse_alike
  | some way =>
    cases way with
    | primary => exact primary_alike
    | unary => exact unary_alike hread
    | group => exact group_alike hread

include hread in
theorem continuation_alike {left left' : Expr} (hleft : left'.unplaced = left.unplaced) :
    RunsAlike Cursor.SameText (fun a b => b.unplaced = a.unplaced) (continuation g read left)
      (continuation g read' left') := by
  refine .bind kind_alike ?_
  rintro _ k rfl
  cases g.continuation? k with
  | none => exact refuse_alike
  | some way =>
    cases way with
    | assignment => exact assignment_alike hread hleft
    | binary => exact binary_alike hread hleft _
    | conversion => exact conversion_alike hleft
    | call => exact call_alike hread hleft
    | update => exact update_alike hleft

include hread in
theorem climb_alike (level : Level) {left left' : Expr} (hleft : left'.unplaced = left.unplaced) :
    RunsAlike Cursor.SameText (fun a b => b.unplaced = a.unplaced) (climb g read level left)
      (climb g read' level left') := by
  intro c d hcd
  induction hremaining : c.remaining using Nat.strongRecOn generalizing c d left left' with
  | ind k ih =>
    rw [climb, climb, hcd.kind_eq]
    split
    · obtain ⟨a, c', b, d', hm, hn, hab, hcd'⟩ | ⟨e, c', e', d', hm, hn, hfault⟩ :=
        (continuation_alike (g := g) hread hleft c d hcd).cases
      · rw [hm, hn]
        simp only [hcd.remaining_eq, hcd'.remaining_eq]
        split
        · next hless => exact ih _ (hremaining ▸ hless) hab c' d' hcd' rfl
        · exact refuse_alike c' d' hcd'
      · rw [hm, hn]
        exact hfault
    · exact ⟨hleft, hcd⟩

theorem expr_alike (g : Grammar) (level : Level) :
    RunsAlike Cursor.SameText (fun a b => b.unplaced = a.unplaced) (expr g level) (expr g level) := by
  intro c d hcd
  induction hremaining : c.remaining using Nat.strongRecOn generalizing c d level with
  | ind k ih =>
    rw [expr, expr]
    refine RunsAlike.bind (opening_alike ?_) (fun left left' hleft => climb_alike ?_ level hleft) c d hcd
    all_goals
      intro l c' d' hcd'
      simp only [hcd.remaining_eq, hcd'.remaining_eq]
      split
      · next hless => exact ih _ (hremaining ▸ hless) l c' d' hcd' rfl
      · exact refuse_alike c' d' hcd'

end Expressions

section Statements

variable {g : Grammar} {read read' : Reading Stmt}
  (hread : RunsAlike Cursor.SameText (fun a b => b.unplaced = a.unplaced) read read')

theorem typeAfter_alike (mark : Kind) :
    RunsAlike Cursor.SameText (fun a b => b = a) (typeAfter mark) (typeAfter mark) := by
  refine .bind (passed_alike mark) ?_
  rintro _ there rfl
  refine .ite Iff.rfl (.bind numType_alike ?_) (.pure rfl)
  rintro _ type rfl
  exact .pure rfl

/-- What is read after a mark, if the mark is there, and then the rest. -/
theorem after_alike {f : α → γ} {m n : Reading α} {k l : Option α → Reading β} {Q : β → β → Prop}
    (mark : Kind) (h : RunsAlike Cursor.SameText (fun a b => f b = f a) m n)
    (hrest : ∀ a b, b.map f = a.map f → RunsAlike Cursor.SameText Q (k a) (l b)) :
    RunsAlike Cursor.SameText Q
      (do
        let a ← if ← passed mark then some <$> m else pure none
        k a)
      (do
        let b ← if ← passed mark then some <$> n else pure none
        l b) := by
  refine .bind (passed_alike mark) ?_
  rintro _ there rfl
  refine .ite Iff.rfl (.bind (.map h fun _ _ hab => ?_) hrest) (hrest none none rfl)
  exact congrArg some hab

theorem declaration_alike :
    RunsAlike Cursor.SameText (fun a b => b.unplaced = a.unplaced) (declaration g)
      (declaration g) := by
  unfold declaration
  refine .bind take_alike fun _ _ _ => .bind (expectOr_alike _ _) fun name name' hname => ?_
  have hvalue : name'.value = name.value := congrArg Lexeme.value hname
  refine .bind (typeAfter_alike _) ?_
  rintro _ declared rfl
  refine after_alike _ (expr_alike g _) fun value value' hv => ?_
  refine .bind (expectOr_alike _ _) fun _ _ _ => .bind (spanFrom_alike _ _) fun _ _ _ => .pure ?_
  simp only [Stmt.unplaced, hvalue, hv]

include hread in
theorem branch_alike :
    RunsAlike Cursor.SameText (fun a b => b.unplaced = a.unplaced) (branch g read)
      (branch g read') := by
  unfold branch
  refine .bind take_alike fun _ _ _ => .bind (expr_alike g _) fun condition condition' hc => ?_
  refine .bind hread fun yes yes' hyes => after_alike _ hread fun no no' hno => ?_
  refine .bind (spanFrom_alike _ _) fun _ _ _ => .pure ?_
  simp only [Stmt.unplaced, unplacedStmt?_eq_map, hc, hyes, hno]

include hread in
theorem block_alike :
    RunsAlike Cursor.SameText (fun a b => unplacedStmts b.1 = unplacedStmts a.1) (block read)
      (block read') := by
  have hitem : RunsAlike Cursor.SameText (fun a b => b.unplaced = a.unplaced)
      (do
        if (← kind) = .eof then complain "unterminated block, expected `\x7d`"
        read)
      (do
        if (← kind) = .eof then complain "unterminated block, expected `\x7d`"
        read') := by
    refine .bind kind_alike ?_
    rintro _ k rfl
    exact .ite Iff.rfl (.bind (complain_alike (Q := fun _ _ => True) _) fun _ _ _ => hread) hread
  unfold block
  refine .bind (expectOr_alike _ _) fun _ _ _ => .bind (many_alike _ hitem) fun body body' hbody => ?_
  refine .bind (expect_alike _) fun _ _ _ => .bind (spanFrom_alike _ _) fun _ _ _ => .pure ?_
  simp only [unplacedStmts_eq_map, hbody]

theorem parameter_alike :
    RunsAlike Cursor.SameText (fun a b => b.unplaced = a.unplaced) parameter parameter := by
  refine .bind (expectOr_alike _ _) fun name name' hname => .bind (typeAfter_alike _) ?_
  rintro _ declared rfl
  have hvalue : name'.value = name.value := congrArg Lexeme.value hname
  refine .bind (spanFrom_alike _ _) fun _ _ _ => .pure ?_
  simp only [Parameter.unplaced, hvalue]

include hread in
theorem function_alike :
    RunsAlike Cursor.SameText (fun a b => b.unplaced = a.unplaced) (function read)
      (function read') := by
  unfold function
  refine .bind take_alike fun _ _ _ => .bind (expectOr_alike _ _) fun name name' hname => ?_
  have hvalue : name'.value = name.value := congrArg Lexeme.value hname
  refine .bind (expect_alike _) fun _ _ _ => .bind (commaList_alike _ parameter_alike) ?_
  intro parameters parameters' hparameters
  refine .bind (expect_alike _) fun _ _ _ => .bind (typeAfter_alike _) ?_
  rintro _ result rfl
  refine .bind (block_alike hread) fun body body' hbody => ?_
  refine .bind (spanFrom_alike _ _) fun _ _ _ => .pure ?_
  simp only [Stmt.unplaced, hvalue, hparameters, hbody]

theorem returning_alike :
    RunsAlike Cursor.SameText (fun a b => b.unplaced = a.unplaced) (returning g) (returning g) := by
  refine .bind take_alike fun _ _ _ => .bind (unlessAt_alike _ (expr_alike g _)) ?_
  intro value value' hvalue
  refine .bind (expect_alike _) fun _ _ _ => .bind (spanFrom_alike _ _) fun _ _ _ => .pure ?_
  simp only [Stmt.unplaced, hvalue]

include hread in
theorem whileLoop_alike :
    RunsAlike Cursor.SameText (fun a b => b.unplaced = a.unplaced) (whileLoop g read)
      (whileLoop g read') := by
  refine .bind take_alike fun _ _ _ => .bind (expr_alike g _) fun condition condition' hc => ?_
  refine .bind hread fun body body' hbody => .bind (spanFrom_alike _ _) fun _ _ _ => .pure ?_
  simp only [Stmt.unplaced, hc, hbody]

theorem expression_alike :
    RunsAlike Cursor.SameText (fun a b => b.unplaced = a.unplaced) (expression g)
      (expression g) := by
  refine .bind (expr_alike g _) fun value value' hvalue => ?_
  refine .bind (expect_alike _) fun _ _ _ => .pure ?_
  simp only [Stmt.unplaced_ofExpr, hvalue]

theorem loopStart_alike :
    RunsAlike Cursor.SameText (fun a b => b.map Stmt.unplaced = a.map Stmt.unplaced) (loopStart g)
      (loopStart g) := by
  refine .bind kind_alike ?_
  rintro _ k rfl
  split
  · exact .bind take_alike fun _ _ _ => .pure rfl
  · exact .map declaration_alike fun _ _ h => congrArg some h
  · exact .map expression_alike fun _ _ h => congrArg some h

include hread in
theorem forLoop_alike :
    RunsAlike Cursor.SameText (fun a b => b.unplaced = a.unplaced) (forLoop g read)
      (forLoop g read') := by
  unfold forLoop
  refine .bind take_alike fun _ _ _ => .bind (expect_alike _) fun _ _ _ => ?_
  refine .bind loopStart_alike fun start start' hstart => ?_
  refine .bind (unlessAt_alike _ (expr_alike g _)) fun condition condition' hcondition => ?_
  refine .bind (expect_alike _) fun _ _ _ => ?_
  refine .bind (unlessAt_alike _ (expr_alike g _)) fun step step' hstep => ?_
  refine .bind (expect_alike _) fun _ _ _ => .bind hread fun body body' hbody => ?_
  refine .bind (spanFrom_alike _ _) fun _ _ _ => .pure ?_
  simp only [Stmt.unplaced, unplacedStmt?_eq_map, hstart, hcondition, hstep, hbody]

theorem printing_alike :
    RunsAlike Cursor.SameText (fun a b => b.unplaced = a.unplaced) (printing g) (printing g) := by
  refine .bind take_alike fun _ _ _ => .bind (expr_alike g _) fun value value' hvalue => ?_
  refine .bind (expect_alike _) fun _ _ _ => .bind (spanFrom_alike _ _) fun _ _ _ => .pure ?_
  simp only [Stmt.unplaced, hvalue]

include hread in
theorem stmtStep_alike :
    RunsAlike Cursor.SameText (fun a b => b.unplaced = a.unplaced) (stmtStep g read)
      (stmtStep g read') := by
  refine .bind kind_alike ?_
  rintro _ k rfl
  cases g.form? k with
  | none => exact expression_alike
  | some form =>
    cases form with
    | declaration => exact declaration_alike
    | branch => exact branch_alike hread
    | block =>
      refine .bind (block_alike hread) fun body body' hbody => .pure ?_
      simp only [Stmt.unplaced, hbody]
    | function => exact function_alike hread
    | returning => exact returning_alike
    | whileLoop => exact whileLoop_alike hread
    | forLoop => exact forLoop_alike hread
    | breaking =>
      exact .bind take_alike fun _ _ _ => .bind (expect_alike _) fun _ _ _ =>
        .bind (spanFrom_alike _ _) fun _ _ _ => .pure rfl
    | continuing =>
      exact .bind take_alike fun _ _ _ => .bind (expect_alike _) fun _ _ _ =>
        .bind (spanFrom_alike _ _) fun _ _ _ => .pure rfl
    | printing => exact printing_alike

theorem stmt_alike (g : Grammar) :
    RunsAlike Cursor.SameText (fun a b => b.unplaced = a.unplaced) (stmt g) (stmt g) := by
  intro c d hcd
  induction hremaining : c.remaining using Nat.strongRecOn generalizing c d with
  | ind k ih =>
    rw [stmt, stmt]
    refine stmtStep_alike ?_ c d hcd
    intro c' d' hcd'
    simp only [hcd.remaining_eq, hcd'.remaining_eq]
    split
    · next hless => exact ih _ (hremaining ▸ hless) c' d' hcd' rfl
    · exact refuse_alike c' d' hcd'

/-- Programs of the same lexemes are the same up to places. -/
theorem program_alike (g : Grammar) :
    RunsAlike Cursor.SameText (fun a b => b.unplaced = a.unplaced) (program g) (program g) :=
  .bind (many_alike _ (stmt_alike g)) fun _ _ h => .bind .get fun _ _ _ => .pure <| by
    rw [Program.unplaced_ofStmts, Program.unplaced_ofStmts, unplacedStmts_eq_map, h, unplacedStmts_eq_map]

end Statements

end Reading
end Numlet
