import Numlet.Proofs.Tree.Leaves
import Numlet.Proofs.Tree.Steps

/-!
What a source can spell. All names of a program that was read from a source are words, and its whole
numbers fit into 64 bits. Each reading keeps to tokens that are spelled right and puts together only what
the readings of its parts have given.
-/
namespace Numlet

/-- A whole number of 64 bits, or a fraction. -/
def Literal.InRange : Literal → Prop
  | .int n => -9223372036854775808 ≤ n ∧ n ≤ 9223372036854775807
  | .fraction _ => True

/-- The names and literals of a part of a program. -/
structure Readable (names : List String) (literals : List Literal) : Prop where
  names : ∀ name ∈ names, Text.isWord name = true
  literals : ∀ l ∈ literals, l.InRange

namespace Readable

theorem nil : Readable [] [] := ⟨fun _ h => (by cases h), fun _ h => (by cases h)⟩

theorem append {ns ms : List String} {ls ks : List Literal} (h₁ : Readable ns ls)
    (h₂ : Readable ms ks) : Readable (ns ++ ms) (ls ++ ks) :=
  ⟨List.forall_mem_append.mpr ⟨h₁.names, h₂.names⟩,
    List.forall_mem_append.mpr ⟨h₁.literals, h₂.literals⟩⟩

theorem cons {n : String} {ns : List String} {ls : List Literal} (hn : Text.isWord n = true)
    (h : Readable ns ls) : Readable (n :: ns) ls :=
  ⟨List.forall_mem_cons.mpr ⟨hn, h.names⟩, h.literals⟩

end Readable

def Token.Spelled (t : Token) : Prop := t.kind = .identifier → Text.isWord t.value = true

def Cursor.Spelled (c : Cursor) : Prop := ∀ t ∈ c.ahead, t.Spelled

theorem Cursor.Spelled.current {c : Cursor} (h : c.Spelled) : c.current.Spelled := by
  unfold Cursor.current
  cases hc : c.ahead with
  | nil => exact fun hk => (by cases hk)
  | cons t rest => exact h t (by simp [hc])

theorem Cursor.Spelled.advance {c : Cursor} (h : c.Spelled) : c.advance.Spelled := by
  unfold Cursor.advance
  split
  · exact h
  · next t rest hc => exact fun u hu => h u (hc ▸ List.mem_cons_of_mem _ hu)

namespace Reading

/-- From spelled tokens a reading gives only values with a property. -/
abbrev Yields {α : Type} (m : Reading α) (P : α → Prop) : Prop :=
  Blames Cursor.Spelled (fun _ => True) P m

theorem spelled_keeps : Keeps Cursor.Spelled (fun _ => True) Token.Spelled where
  advance _ h := h.advance
  current _ h := h.current
  refusal _ _ := trivial
  complaint _ _ _ := trivial
  unknownType _ _ := trivial

end Reading

def Expr.Readable (e : Expr) : Prop := Numlet.Readable e.names e.literals

theorem Expr.Readable.all {es : List Expr} (h : ∀ e ∈ es, e.Readable) :
    Numlet.Readable (namesOfExprs es) (literalsOfExprs es) := by
  induction es with
  | nil => exact .nil
  | cons e es ih =>
    rw [List.forall_mem_cons] at h
    exact h.1.append (ih h.2)

theorem Expr.Readable.option {e : Option Expr} (h : ∀ x ∈ e, x.Readable) :
    Numlet.Readable (namesOfExpr? e) (literalsOfExpr? e) := by
  cases e with
  | none => exact .nil
  | some e => exact h e rfl

theorem Expr.readable_literal {value : Literal} (h : value.InRange) (span : Span) :
    (Expr.literal value span).Readable :=
  ⟨fun _ hn => (by cases hn), fun l hl => (by cases List.mem_singleton.mp hl; exact h)⟩

theorem Expr.readable_var {name : String} (h : Text.isWord name = true) (span : Span) :
    (Expr.var name span).Readable := .cons h .nil

namespace Reading

theorem inRange_of_literal? {text : String} {value : Literal} (h : literal? text = some value) :
    value.InRange := by
  unfold literal? at h
  split at h
  · obtain ⟨x, -, rfl⟩ := Option.map_eq_some_iff.mp h
    trivial
  · obtain ⟨n, -, hn⟩ := Option.bind_eq_some_iff.mp h
    split at hn
    · next hrange =>
      cases hn
      exact hrange
    · cases hn

theorem primary_yields : Yields primary Expr.Readable := by
  refine .bind .get fun c hc => ?_
  have ht := hc.current
  generalize c.current = t at ht
  obtain ⟨kind, value, span⟩ := t
  cases kind with
  | number =>
    cases hl : literal? value with
    | none =>
      simp only [hl]
      exact .throw trivial
    | some l =>
      simp only [hl]
      exact spelled_keeps.take.bind fun t _ => .pure (Expr.readable_literal (inRange_of_literal? hl) _)
  | trueWord | falseWord =>
    exact spelled_keeps.take.bind fun t _ => .pure (Expr.readable_literal (by simp [Literal.InRange]) _)
  | identifier => exact spelled_keeps.take.bind fun t _ => .pure (Expr.readable_var (ht rfl) _)
  | _ => exact spelled_keeps.refuse

section Parts

variable {expr : ExprReader} (hexpr : ∀ level, Yields (expr level) Expr.Readable)
include hexpr

theorem unary_yields : Yields (unary expr) Expr.Readable :=
  spelled_keeps.take.bind fun _ _ => (hexpr _).bind fun _ he => .pure he

theorem group_yields : Yields (group expr) Expr.Readable :=
  spelled_keeps.take.bind fun _ _ => (hexpr _).bind fun _ he =>
    (spelled_keeps.expect _).bind fun _ _ => .pure he

theorem binary_yields {left : Expr} (hleft : left.Readable) (level : Level) :
    Yields (binary expr left level) Expr.Readable := by
  refine spelled_keeps.take.bind fun sign _ => ?_
  cases BinaryOp.ofKind? sign.kind with
  | none => exact .throw trivial
  | some op => exact (hexpr _).bind fun _ he => .pure (hleft.append he)

theorem assignment_yields {left : Expr} (hleft : left.Readable) :
    Yields (assignment expr left) Expr.Readable := by
  refine spelled_keeps.take.bind fun sign _ => (hexpr _).bind fun right hright => ?_
  cases BinaryOp.ofKind? sign.kind with
  | none => exact .pure (hleft.append hright)
  | some op => exact .pure (hleft.append (hleft.append hright))

theorem call_yields {left : Expr} (hleft : left.Readable) : Yields (call expr left) Expr.Readable := by
  cases left with
  | var callee span =>
    refine spelled_keeps.take.bind fun _ _ => (spelled_keeps.commaList _ (hexpr _)).bind fun es hes =>
      (spelled_keeps.expect _).bind fun _ _ => lastEnd_blames.bind fun _ _ => .pure ?_
    exact .cons (hleft.names callee (List.mem_singleton.mpr rfl)) (Expr.Readable.all hes)
  | literal | binary | unary | update | assign | convert | call => exact .throw trivial

end Parts

theorem update_yields {left : Expr} (hleft : left.Readable) : Yields (update left) Expr.Readable := by
  refine spelled_keeps.take.bind fun sign _ => ?_
  cases left with
  | var target span => exact .pure hleft
  | literal | binary | unary | update | assign | convert | call => exact .throw trivial

theorem conversion_yields {left : Expr} (hleft : left.Readable) :
    Yields (conversion left) Expr.Readable :=
  spelled_keeps.take.bind fun _ _ => spelled_keeps.numType.bind fun _ _ => lastEnd_blames.bind fun _ _ =>
    .pure hleft

section Parts

variable (g : Grammar) {expr : ExprReader} (hexpr : ∀ level, Yields (expr level) Expr.Readable)
include hexpr

theorem opening_yields : Yields (opening g expr) Expr.Readable := by
  refine kind_blames.bind fun k _ => ?_
  cases g.opening? k with
  | none => exact spelled_keeps.refuse
  | some way =>
    cases way with
    | primary => exact primary_yields
    | unary => exact unary_yields hexpr
    | group => exact group_yields hexpr

theorem continuation_yields {left : Expr} (hleft : left.Readable) :
    Yields (continuation g expr left) Expr.Readable := by
  refine kind_blames.bind fun k _ => ?_
  cases g.continuation? k with
  | none => exact spelled_keeps.refuse
  | some way =>
    cases way with
    | assignment => exact assignment_yields hexpr hleft
    | binary => exact binary_yields hexpr hleft _
    | conversion => exact conversion_yields hleft
    | call => exact call_yields hexpr hleft
    | update => exact update_yields hleft

theorem climb_yields (level : Level) {left : Expr} (hleft : left.Readable) :
    Yields (climb g expr level left) Expr.Readable := by
  intro c hc
  fun_induction climb g expr level left c with
  | case1 left c hlt d c' hrun => trivial
  | case2 left c hlt longer c' hrun hdown ih =>
    obtain ⟨hc', hlonger⟩ := (continuation_yields g hexpr hleft).of_ok hc hrun
    exact ih hlonger hc'
  | case3 left c hlt longer c' hrun hle => trivial
  | case4 left c hle => exact ⟨hc, hleft⟩

theorem exprStep_yields (level : Level) : Yields (exprStep g expr level) Expr.Readable :=
  (opening_yields g hexpr).bind fun _ hleft => climb_yields g hexpr level hleft

end Parts

/-- All that an expression is read from can be spelled. -/
theorem expr_yields (g : Grammar) (level : Level) : Yields (expr g level) Expr.Readable := by
  intro c hc
  rw [expr]
  refine exprStep_yields g ?_ level c hc
  intro level' c' hc'
  dsimp only
  split
  · exact expr_yields g level' c' hc'
  · trivial
termination_by c => c.remaining

end Reading

def Stmt.Readable (s : Stmt) : Prop := Numlet.Readable s.names s.literals

theorem Stmt.Readable.all {ss : List Stmt} (h : ∀ s ∈ ss, s.Readable) :
    Numlet.Readable (namesOfStmts ss) (literalsOfStmts ss) := by
  induction ss with
  | nil => exact .nil
  | cons s ss ih =>
    rw [List.forall_mem_cons] at h
    exact h.1.append (ih h.2)

theorem Stmt.Readable.option {s : Option Stmt} (h : ∀ x ∈ s, x.Readable) :
    Numlet.Readable (namesOfStmt? s) (literalsOfStmt? s) := by
  cases s with
  | none => exact .nil
  | some s => exact h s rfl

theorem Stmt.readable_ofExpr {e : Expr} (h : e.Readable) : (Stmt.ofExpr e).Readable := by
  unfold Stmt.Readable
  rw [names_ofExpr, literals_ofExpr]
  exact h

namespace Reading

theorem declaration_yields (g : Grammar) : Yields (declaration g) Stmt.Readable := by
  refine spelled_keeps.take.bind fun start _ => (spelled_keeps.expectOr _ _).bind fun name hname => ?_
  refine (spelled_keeps.typeAfter _).bind fun _ _ => ?_
  refine spelled_keeps.afterMark _ (expr_yields g _) fun value hvalue => ?_
  refine (spelled_keeps.expectOr _ _).bind fun _ _ => (spanFrom_blames start).bind fun _ _ => .pure ?_
  exact .cons (hname.2 hname.1) (Expr.Readable.option hvalue)

theorem returning_yields (g : Grammar) : Yields (returning g) Stmt.Readable :=
  spelled_keeps.take.bind fun start _ => (unlessAt_blames _ (expr_yields g _)).bind fun _ hv =>
    (spelled_keeps.expect _).bind fun _ _ => (spanFrom_blames start).bind fun _ _ =>
    .pure (Expr.Readable.option hv)

theorem expression_yields (g : Grammar) : Yields (expression g) Stmt.Readable :=
  (expr_yields g _).bind fun _ he => (spelled_keeps.expect _).bind fun _ _ =>
    .pure (Stmt.readable_ofExpr he)

theorem printing_yields (g : Grammar) : Yields (printing g) Stmt.Readable :=
  spelled_keeps.take.bind fun start _ => (expr_yields g _).bind fun _ he =>
    (spelled_keeps.expect _).bind fun _ _ => (spanFrom_blames start).bind fun _ _ => .pure he

/-- A jump, whichever it is. -/
theorem jump_yields {f : Span → Stmt} (hf : ∀ span, (f span).Readable) :
    Yields (take >>= fun start => expect .semicolon >>= fun _ => spanFrom start >>= fun span =>
      pure (f span)) Stmt.Readable :=
  spelled_keeps.take.bind fun start _ => (spelled_keeps.expect _).bind fun _ _ =>
    (spanFrom_blames start).bind fun span _ => .pure (hf span)

theorem loopStart_yields (g : Grammar) : Yields (loopStart g) fun o => ∀ s ∈ o, s.Readable := by
  refine kind_blames.bind fun k _ => ?_
  split
  · exact spelled_keeps.take.bind fun _ _ => .pure fun s hs => (by cases hs)
  · exact some_blames (declaration_yields g)
  · exact some_blames (expression_yields g)

theorem parameter_yields : Yields parameter fun p => Text.isWord p.name = true :=
  (spelled_keeps.expectOr _ _).bind fun name hname => (spelled_keeps.typeAfter _).bind fun _ _ =>
    (spanFrom_blames name).bind fun _ _ => .pure (hname.2 hname.1)

section Parts

variable (g : Grammar) {stmt : Reading Stmt} (hstmt : Yields stmt Stmt.Readable)
include hstmt

theorem branch_yields : Yields (branch g stmt) Stmt.Readable := by
  refine spelled_keeps.take.bind fun start _ => (expr_yields g _).bind fun _ he => hstmt.bind fun _ hyes => ?_
  refine spelled_keeps.afterMark _ hstmt fun no hno => (spanFrom_blames start).bind fun _ _ => .pure ?_
  exact (he.append hyes).append (Stmt.Readable.option hno)

theorem block_yields : Yields (block stmt) fun b => ∀ s ∈ b.1, s.Readable := by
  refine (spelled_keeps.expectOr _ _).bind fun start _ => (spelled_keeps.many _ ?_).bind fun _ hbody =>
    (spelled_keeps.expect _).bind fun _ _ => (spanFrom_blames start).bind fun _ _ => .pure hbody
  refine kind_blames.bind fun k _ => ?_
  split
  · exact (spelled_keeps.complain (P := fun _ => True) _).bind fun _ _ => hstmt
  · exact hstmt

theorem function_yields : Yields (function stmt) Stmt.Readable := by
  refine spelled_keeps.take.bind fun start _ => (spelled_keeps.expectOr _ _).bind fun name hname =>
    (spelled_keeps.expect _).bind fun _ _ => (spelled_keeps.commaList _ parameter_yields).bind fun ps hps =>
    (spelled_keeps.expect _).bind fun _ _ => (spelled_keeps.typeAfter _).bind fun _ _ =>
    (block_yields hstmt).bind fun body hbody => (spanFrom_blames start).bind fun _ _ => .pure ?_
  have hparameters : Readable (ps.map (·.name)) [] :=
    ⟨List.forall_mem_map.mpr hps, fun _ hl => (by cases hl)⟩
  exact .cons (hname.2 hname.1) (hparameters.append (Stmt.Readable.all hbody))

theorem whileLoop_yields : Yields (whileLoop g stmt) Stmt.Readable :=
  spelled_keeps.take.bind fun start _ => (expr_yields g _).bind fun _ he => hstmt.bind fun _ hbody =>
    (spanFrom_blames start).bind fun _ _ => .pure (he.append hbody)

theorem forLoop_yields : Yields (forLoop g stmt) Stmt.Readable := by
  refine spelled_keeps.take.bind fun start _ => (spelled_keeps.expect _).bind fun _ _ =>
    (loopStart_yields g).bind fun first hfirst =>
    (unlessAt_blames _ (expr_yields g _)).bind fun condition hcondition =>
    (spelled_keeps.expect _).bind fun _ _ => (unlessAt_blames _ (expr_yields g _)).bind fun step hstep =>
    (spelled_keeps.expect _).bind fun _ _ => hstmt.bind fun body hbody =>
    (spanFrom_blames start).bind fun _ _ => .pure ?_
  have hhead := (Stmt.Readable.option hfirst).append (Expr.Readable.option hcondition)
  have hnames := (hhead.append (Expr.Readable.option hstep)).append hbody
  have hliterals := (hhead.append hbody).append (Expr.Readable.option hstep)
  exact ⟨hnames.names, hliterals.literals⟩

theorem stmtStep_yields : Yields (stmtStep g stmt) Stmt.Readable := by
  refine kind_blames.bind fun k _ => ?_
  cases g.form? k with
  | none => exact expression_yields g
  | some form =>
    cases form with
    | declaration => exact declaration_yields g
    | branch => exact branch_yields g hstmt
    | block =>
      exact (block_yields hstmt).bind fun _ hbody => .pure (Stmt.Readable.all hbody)
    | function => exact function_yields hstmt
    | returning => exact returning_yields g
    | whileLoop => exact whileLoop_yields g hstmt
    | forLoop => exact forLoop_yields g hstmt
    | breaking => exact jump_yields (f := .breakLoop) fun _ => .nil
    | continuing => exact jump_yields (f := .continueLoop) fun _ => .nil
    | printing => exact printing_yields g

end Parts

end Reading

theorem Stmt.function?_eq_some {s : Stmt} {f : Function} (h : s.function? = some f) :
    s = .function f.name f.parameters f.result f.body f.bodySpan f.span := by
  cases s with
  | function =>
    cases h
    rfl
  | declare | assign | branch | whileLoop | forLoop | breakLoop | continueLoop | returnValue | print
  | block | expression | call => cases h

theorem Program.readable_ofStmts {stmts : List Stmt} (h : ∀ s ∈ stmts, s.Readable) (span : Span) :
    Readable (Program.ofStmts stmts span).names (Program.ofStmts stmts span).literals := by
  have hrest : ∀ s ∈ stmts.filter (·.function?.isNone), s.Readable :=
    fun s hs => h s (List.mem_filter.mp hs).1
  have hbody := Stmt.Readable.all hrest
  have hfunction : ∀ f ∈ stmts.filterMap Stmt.function?, Readable f.names (literalsOfStmts f.body) := by
    intro f hf
    obtain ⟨s, hs, hsome⟩ := List.mem_filterMap.mp hf
    have hs := h s hs
    rw [Stmt.function?_eq_some hsome] at hs
    exact hs
  refine Readable.append ⟨fun name hn => ?_, fun l hl => ?_⟩ hbody
  · obtain ⟨f, hf, hn⟩ := List.mem_flatMap.mp hn
    exact (hfunction f hf).names name hn
  · obtain ⟨f, hf, hl⟩ := List.mem_flatMap.mp hl
    exact (hfunction f hf).literals l hl

theorem Reading.program_yields (g : Grammar) :
    Yields (program g) fun p => Readable p.names p.literals :=
  (spelled_keeps.many _ (spelled_keeps.stmt g fun _ => stmtStep_yields g)).bind fun _ hstmts =>
    Blames.get.bind fun _ _ => .pure (Program.readable_ofStmts hstmts _)

theorem Pattern.ne_identifier_of_mem_signs : ∀ s ∈ Pattern.signs, s.1 ≠ .identifier := by decide

theorem Pattern.spelled_of_take? {pattern : Pattern} (hp : pattern ∈ Pattern.patterns)
    {cs taken rest : List Char} (h : pattern.take? cs = some (taken, rest)) {kind : Kind}
    (hk : pattern.kind? (String.ofList taken) = some kind) (span : Span) :
    Token.Spelled ⟨kind, String.ofList taken, span⟩ := by
  intro hname
  change kind = .identifier at hname
  subst hname
  cases pattern with
  | word =>
    simp only [take?] at h
    split at h
    · next hstart =>
      cases h
      cases cs with
      | nil => cases hstart
      | cons c cs =>
        have hc : Text.isWordStart c = true := hstart
        unfold Text.isWord
        rw [String.toList_ofList, List.takeWhile_cons_of_pos (Pattern.isWordChar_of_isWordStart hc)]
        simp only [hc, Bool.true_and]
        exact List.all_takeWhile
    · cases h
  | number => cases hk
  | blanks => cases hk
  | comment => cases hk
  | sign kind text =>
    cases hk
    simp only [patterns, List.mem_append, List.mem_cons, reduceCtorEq, List.not_mem_nil, or_self,
      List.mem_map, sign.injEq, false_or] at hp
    obtain ⟨s, hs, hname, -⟩ := hp
    exact absurd hname (ne_identifier_of_mem_signs s hs)

theorem scan_spelled {file : String} {offset : Nat} {cs : List Char} {tokens : List Token}
    (h : scan file offset cs = .ok tokens) : ∀ t ∈ tokens, t.Spelled := by
  fun_induction scan file offset cs generalizing tokens with
  | case1 offset =>
    cases h
    exact List.forall_mem_singleton.mpr fun hk => (by cases hk)
  | case2 | case3 => cases h
  | case4 offset c cs pattern taken rest hfirst length text rest' hscan hkind =>
    rename_i ih
    cases h
    exact ih hscan
  | case5 offset c cs pattern taken rest hfirst length text rest' hscan kind hkind =>
    rename_i ih
    cases h
    obtain ⟨q, hq, hq'⟩ := List.exists_of_findSome?_eq_some hfirst
    obtain ⟨⟨t, r⟩, ht, heq⟩ := Option.map_eq_some_iff.mp hq'
    cases heq
    exact List.forall_mem_cons.mpr ⟨Pattern.spelled_of_take? hq ht hkind _, ih hscan⟩

theorem Cursor.spelled_ofTokens {file : String} {tokens : List Token} (h : ∀ t ∈ tokens, t.Spelled) :
    (Cursor.ofTokens file tokens).Spelled := by
  unfold Cursor.ofTokens
  split
  · exact fun t ht => (by cases ht)
  · split
    · exact fun t ht => h t (List.dropLast_subset _ ht)
    · exact h

/-- A source spells its names as words and its whole numbers in 64 bits. -/
theorem Program.readable_of_source {source file : String} {p : Program}
    (h : Program.ofSource source file = .ok p) : Readable p.names p.literals := by
  unfold Program.ofSource at h
  cases ht : tokenize source file with
  | error d =>
    rw [ht] at h
    cases h
  | ok tokens =>
    rw [ht] at h
    cases hp : Program.ofTokens file tokens with
    | error d c =>
      simp only [hp] at h
      cases h
    | ok q c =>
      simp only [hp] at h
      cases h
      exact ((Reading.program_yields .standard).of_ok (Cursor.spelled_ofTokens (scan_spelled ht)) hp).2

end Numlet
