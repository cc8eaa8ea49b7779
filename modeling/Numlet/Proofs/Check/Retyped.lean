import Numlet.Proofs.Check.Asked
import Numlet.Proofs.Check.Repeated
import Numlet.Proofs.Check.Returns

/-!
Returned values in two runs over the same body, where the later run reads every local at the storage of the
earlier one. A value that is returned is no narrower in the later run, with one exception: a whole number
that was an `i64` because one was wanted is an `i32` again where a fraction is wanted. And a run leaves the
result of a function that no call pins as it was, or sets it to the type of a value that it returns.
-/
namespace Numlet
open Checking NumType

theorem Literal.rank_typeFor_mono (value : Literal) {a b : Option NumType} (h : wanted a ≤ wanted b) :
    (value.typeFor a).rank ≤ (value.typeFor b).rank ∨
      value.typeFor a = .i64 ∧ NumType.f32.rank ≤ wanted b := by
  cases value with
  | int n =>
    simp only [typeFor]
    by_cases ha : forInteger n = .i32 ∧ a = some .i64
    · rw [if_pos ha]
      rw [ha.2] at h
      cases b with
      | none => exact absurd h (by decide)
      | some t =>
        cases t with
        | i32 => exact absurd h (by decide)
        | i64 => exact .inl (Nat.le_of_eq (congrArg rank (if_pos ⟨ha.1, rfl⟩).symm))
        | f32 => exact .inr ⟨rfl, Nat.le_refl _⟩
        | f64 => exact .inr ⟨rfl, Nat.le_succ _⟩
    · rw [if_neg ha]
      refine .inl ?_
      split
      · next hb =>
        rw [hb.1]
        exact Nat.zero_le _
      · exact Nat.le_refl _
  | fraction x =>
    change (forFraction a).rank ≤ (forFraction b).rank ∨ _
    refine .inl ?_
    by_cases ha : a = some .f64
    · rw [ha] at h ⊢
      cases b with
      | none => exact absurd h (by decide)
      | some t =>
        cases t with
        | i32 | i64 | f32 => exact absurd h (by decide)
        | f64 => exact Nat.le_refl _
    · unfold forFraction
      rw [if_neg ha]
      split <;> decide

/-- A wider wanted type goes to the right operand as a wider one. -/
theorem wanted_rightHint_mono {l l' : NumType} {a b : Option NumType} (hab : wanted a ≤ wanted b)
    (hl : l.rank ≤ l'.rank ∨ l = .i64 ∧ NumType.f32.rank ≤ wanted b) :
    wanted (rightHint l a) ≤ wanted (rightHint l' b) := by
  have hmost : wanted b ≤ NumType.f64.rank := rank_le_three _
  unfold rightHint
  by_cases hf : l = .f64
  · have hf' : l' = .f64 := by
      subst hf
      obtain hle | ⟨hno, -⟩ := hl
      · cases l' with
        | f64 => rfl
        | i32 | i64 | f32 => exact absurd hle (by decide)
      · cases hno
    exact Nat.le_of_eq (by rw [if_pos hf, if_pos hf'])
  · rw [if_neg hf]
    split
    · exact Nat.le_trans hab hmost
    · exact hab

/-- What holds of two operands holds of the binary expression. -/
theorem BinaryOp.rank_typeOf_mono (op : BinaryOp) {b : Option NumType} {l r l' r' : NumType}
    (hl : l.rank ≤ l'.rank ∨ l = .i64 ∧ NumType.f32.rank ≤ wanted (op.operandHint b))
    (hr : r.rank ≤ r'.rank ∨ r = .i64 ∧ NumType.f32.rank ≤ wanted (rightHint l' (op.operandHint b))) :
    (op.typeOf l r).rank ≤ (op.typeOf l' r').rank ∨
      op.typeOf l r = .i64 ∧ NumType.f32.rank ≤ wanted b := by
  unfold typeOf
  by_cases ha : op.isArithmetic = true
  · rw [operandHint, if_pos ha] at hl hr
    rw [if_pos ha, if_pos ha, rank_join, rank_join]
    have hright := wanted_rightHint_le l' b
    by_cases hle : max l.rank r.rank ≤ max l'.rank r'.rank
    · exact .inl hle
    · -- One side has lost its `i64`, and neither is wider than that.
      refine .inr ⟨eq_of_rank_eq ?_, ?_⟩
      · rw [rank_join]
        obtain hl | ⟨rfl, hl⟩ := hl <;> obtain hr | ⟨rfl, hr⟩ := hr <;>
          simp only [rank] at * <;> omega
      · obtain hl | ⟨rfl, hl⟩ := hl <;> obtain hr | ⟨rfl, hr⟩ := hr <;>
          simp only [rank] at * <;> omega
  · rw [if_neg ha]
    exact .inl (Nat.zero_le _)

section Expressions

variable {z : Checker}

/-- Where a type no narrower is wanted, the later run makes the type no narrower, unless a whole number has
lost its `i64` to a fraction that is wanted. -/
theorem Expr.rank_le_later (e : Expr) {a b : Option NumType} {s s' t t' : Checker} {x y : Typed.Expr}
    (h : ExprRun e a s x s') (h' : ExprRun e b t y t') (hs : z.Retraced s t) (hz : s'.Before z)
    (hab : wanted a ≤ wanted b) :
    x.type.rank ≤ y.type.rank ∨ x.type = .i64 ∧ NumType.f32.rank ≤ wanted b := by
  cases hhint : e.takesHint with
  | false =>
    -- Nothing is made of the wanted type, so nothing might have been wanted.
    have hle := (e.retraces z (h.any_hint hhint none) h' hs hz).2
    exact .inl (by simpa using hle)
  | true =>
    match e with
    | .literal value span =>
      cases h
      cases h'
      exact value.rank_typeFor_mono hab
    | .unary op operand span =>
      have hop : op ≠ .not := by simpa [takesHint] using hhint
      cases h with
      | unary h =>
        cases h' with
        | unary h' =>
          rw [if_neg hop] at h h'
          have hle := operand.rank_le_later h h' hs hz hab
          simpa [Typed.Expr.type, hop] using hle
    | .binary op left right span =>
      have hop : op.isArithmetic = true := hhint
      obtain ⟨first, s₁, second, hl, hr, hx⟩ := h.operands
      obtain ⟨first', t₁, second', hl', hr', hy⟩ := h'.operands
      have hz₁ := hz.of_grows hr.free.extends.toGrows
      have hdown : wanted (op.operandHint a) ≤ wanted (op.operandHint b) := by
        rwa [BinaryOp.operandHint, BinaryOp.operandHint, if_pos hop, if_pos hop]
      have hfirst := left.rank_le_later hl hl' hs hz₁ hdown
      have hs₁ := (left.retraces z hl hl' hs hz₁).1
      have hsecond := right.rank_le_later hr hr' hs₁ hz (wanted_rightHint_mono hdown hfirst)
      rw [hx, hy]
      exact op.rank_typeOf_mono hfirst hsecond
    | .var .. | .update .. | .assign .. | .convert .. | .call .. => cases hhint

end Expressions

namespace Typed

/-- A value of the given type is returned in one of the statements. -/
def Returns (parts : List Stmt) (type : NumType) : Prop :=
  ∃ value span, .returnValue (some value) span ∈ parts ∧ value.type = type

@[simp] theorem returns_append {xs ys : List Stmt} {type : NumType} :
    Returns (xs ++ ys) type ↔ Returns xs type ∨ Returns ys type := by
  constructor
  · rintro ⟨value, span, hmem, rfl⟩
    exact (List.mem_append.mp hmem).imp (fun h => ⟨value, span, h, rfl⟩) fun h => ⟨value, span, h, rfl⟩
  · rintro (⟨value, span, hmem, rfl⟩ | ⟨value, span, hmem, rfl⟩)
    · exact ⟨value, span, List.mem_append_left _ hmem, rfl⟩
    · exact ⟨value, span, List.mem_append_right _ hmem, rfl⟩

theorem returns_singleton {x : Stmt} {type : NumType} :
    Returns [x] type ↔ ∃ value span, x = .returnValue (some value) span ∧ value.type = type := by
  simp [Returns, eq_comm]

theorem not_returns_nil (type : NumType) : ¬ Returns [] type := by
  rintro ⟨value, span, hmem, -⟩
  cases hmem

theorem not_returns_singleton {x : Stmt} (h : ∀ value span, x ≠ .returnValue (some value) span)
    (type : NumType) : ¬ Returns [x] type := by
  intro hx
  obtain ⟨value, span, heq, -⟩ := returns_singleton.mp hx
  exact h value span heq

end Typed

/-- The step of a loop is an expression. -/
theorem StmtRun?.step_returns {step : Option Expr} {s s' : Checker} {x : Option Typed.Stmt}
    (h : StmtRun? (step.map Stmt.ofExpr) s x s') (type : NumType) :
    ¬ Typed.Returns (Typed.partsOfStmt? x) type := by
  cases step with
  | none =>
    cases h
    exact Typed.not_returns_nil type
  | some e =>
    cases h with
    | present h =>
      cases e with
      | assign => cases h; exact Typed.not_returns_singleton (by simp) type
      | call => cases h; exact Typed.not_returns_singleton (by simp) type
      | literal | var | binary | unary | update | convert =>
        cases h
        exact Typed.not_returns_singleton (by simp) type

/-- The result of a function so far. -/
def Checker.result? (s : Checker) (f : String) : Option NumType :=
  (s.signatures.find? f).bind (·.result)

theorem Checker.result?_eq {s : Checker} {f : String} {signature : Signature}
    (h : s.signatures.find? f = some signature) : s.result? f = signature.result := by
  rw [result?, h, Option.bind_some]

theorem Checker.result?_withSignature_self (s : Checker) (f : String) (signature : Signature) :
    (s.withSignature f signature).result? f = signature.result :=
  result?_eq (Table.find?_insert_self _ _ _)

theorem Checker.result?_withSignature_of_ne (s : Checker) {f g : String} (signature : Signature)
    (h : f ≠ g) : (s.withSignature g signature).result? f = s.result? f := by
  rw [result?, withSignature, Table.find?_insert_of_ne _ _ h]
  rfl

theorem Table.Grows.wanted_result?_le {s s' : Checker} (h : s.signatures.Grows s'.signatures)
    (f : String) : wanted (s.result? f) ≤ wanted (s'.result? f) := by
  cases hf : s.signatures.find? f with
  | none =>
    rw [Checker.result?, hf]
    exact Nat.zero_le _
  | some signature =>
    obtain ⟨later, hl, hg⟩ := h.known f signature hf
    rw [Checker.result?_eq hf, Checker.result?_eq hl]
    exact hg.rank_le

/-- A return of a value checks it with the result wanted that its function has so far. -/
theorem StmtRun.returned_wanted {value : Expr} {span : Span} {s s' : Checker} {x : Typed.Stmt}
    (h : StmtRun (.returnValue (some value) span) s x s') :
    ∃ f typed s₁, s.scope.function = some f ∧ ExprRun value (s.result? f) s typed s₁ ∧
      x = .returnValue (some typed) span ∧ s₁.Grows s' := by
  cases h with
  | @returnFixed _ _ _ _ _ _ s₁ hf hs h _ _ _ =>
    rw [← Checker.result?_eq hs] at h
    exact ⟨_, _, _, hf, h, rfl, { Checker.Grows.refl s₁ with valuedReturn := fun _ => rfl }⟩
  | returnInferred hf hs h _ _ hc =>
    have hgrows := fun type => h.free.grows_inferred hs hc type
    rw [← Checker.result?_eq hs] at h
    exact ⟨_, _, _, hf, h, rfl,
      (hgrows _).trans { Checker.Grows.refl _ with valuedReturn := fun _ => rfl }⟩

/-- What the earlier run returns is matched by something no narrower that the later run returns, unless it
is an `i64` and the later run has a result with fractions. -/
def ReturnsMatched (result : Option NumType) (xs ys : List Typed.Stmt) : Prop :=
  ∀ type, Typed.Returns xs type → (∃ wider, Typed.Returns ys wider ∧ type.rank ≤ wider.rank) ∨
    type = .i64 ∧ NumType.f32.rank ≤ wanted result

namespace ReturnsMatched

variable {result result' : Option NumType} {xs xs' ys ys' : List Typed.Stmt} {x y : Typed.Stmt}

theorem of_none (h : ∀ type, ¬ Typed.Returns xs type) : ReturnsMatched result xs ys :=
  fun type hx => absurd hx (h type)

theorem nil : ReturnsMatched result [] ys := of_none Typed.not_returns_nil

theorem mono (h : ReturnsMatched result xs ys) (hle : wanted result ≤ wanted result') :
    ReturnsMatched result' xs ys := fun type hx =>
  (h type hx).imp_right fun hlost => ⟨hlost.1, Nat.le_trans hlost.2 hle⟩

theorem append (h : ReturnsMatched result xs ys) (h' : ReturnsMatched result xs' ys') :
    ReturnsMatched result (xs ++ xs') (ys ++ ys') := by
  intro type hx
  obtain hx | hx := Typed.returns_append.mp hx
  · refine (h type hx).imp_left ?_
    rintro ⟨wider, hy, hle⟩
    exact ⟨wider, Typed.returns_append.mpr (.inl hy), hle⟩
  · refine (h' type hx).imp_left ?_
    rintro ⟨wider, hy, hle⟩
    exact ⟨wider, Typed.returns_append.mpr (.inr hy), hle⟩

/-- A statement that is no return of a value. -/
theorem other (h : ∀ value span, x ≠ .returnValue (some value) span) : ReturnsMatched result [x] ys :=
  of_none (Typed.not_returns_singleton h)

end ReturnsMatched

section Statements

variable {z : Checker} {f : String}

theorem StmtRun.matched_return {value : Expr} {span : Span} {s s' t t' : Checker} {x y : Typed.Stmt}
    (h : StmtRun (.returnValue (some value) span) s x s')
    (h' : StmtRun (.returnValue (some value) span) t y t') (hs : z.Retraced s t) (hz : s'.Before z)
    (hf : s.scope.function = some f) (hf' : t.scope.function = some f) :
    ReturnsMatched (t'.result? f) x.parts y.parts := by
  obtain ⟨g, typed, s₁, hg, hrun, rfl, hout⟩ := h.returned_wanted
  obtain ⟨g', typed', t₁, hg', hrun', rfl, hout'⟩ := h'.returned_wanted
  cases hf.symm.trans hg
  cases hf'.symm.trans hg'
  have hz₁ := hz.of_grows hout
  have hz₀ := hz₁.of_grows hrun.free.extends.toGrows
  have hwanted := (hz₀.signatures.trans hs.signatures).wanted_result?_le f
  have hend := (hrun'.free.extends.signatures.trans hout'.signatures).wanted_result?_le f
  intro type hx
  obtain ⟨_, _, heq, rfl⟩ := Typed.returns_singleton.mp hx
  cases heq
  refine (value.rank_le_later hrun hrun' hs hz₁ hwanted).imp (fun hle => ?_) fun hlost => ?_
  · exact ⟨_, Typed.returns_singleton.mpr ⟨_, _, rfl, rfl⟩, hle⟩
  · exact ⟨hlost.1, Nat.le_trans hlost.2 hend⟩

mutual

theorem StmtRun.matched (stmt : Stmt) {s s' t t' : Checker} {x y : Typed.Stmt}
    (h : StmtRun stmt s x s') (h' : StmtRun stmt t y t') (hs : z.Retraced s t) (hz : s'.Before z)
    (hf : s.scope.function = some f) (hf' : t.scope.function = some f) :
    ReturnsMatched (t'.result? f) x.parts y.parts := by
  match stmt with
  | .function .. => cases h
  | .branch condition yes no span =>
    cases h with
    | branch hc hy hn =>
      cases h' with
      | branch hc' hy' hn' =>
        have hz₃ := hz.inside
        have hz₂ := hz₃.of_grows hn.free.extends.toGrows
        have hz₁ := hz₂.inside.of_grows hy.free.extends.toGrows
        have hs₁ := (condition.retraces z hc hc' hs hz₁).1
        have hs₂ := StmtRun.retraced yes hy hy' hs₁ hz₂.inside
        have hf₁ := hc.free.extends.function.trans hf
        have hf₁' := hc'.free.extends.function.trans hf'
        have hyes := StmtRun.matched yes hy hy' hs₁ hz₂.inside hf₁ hf₁'
        have hno := StmtRun?.matched no hn hn' (hs₁.leave hs₂ hy.free.extends.storage) hz₃ hf₁ hf₁'
        have hle := hn'.free.extends.signatures.wanted_result?_le f
        exact ((hyes.mono hle).append hno).append (.other (by simp))
  | .whileLoop condition body span =>
    cases h with
    | whileLoop hc hb =>
      cases h' with
      | whileLoop hc' hb' =>
        have hz₂ := hz.inside
        have hz₁ := (hz₂.of_grows hb.free.extends.toGrows).inside
        have hs₁ := (condition.retraces z hc hc' hs hz₁).1
        have hbody := StmtRun.matched body hb hb' hs₁.loopBody hz₂ (hc.free.extends.function.trans hf)
          (hc'.free.extends.function.trans hf')
        exact ((ReturnsMatched.nil.append hbody).append .nil).append (.other (by simp))
  | .forLoop start condition step body span =>
    cases h with
    | forLoop hst hc hb hp =>
      cases h' with
      | forLoop hst' hc' hb' hp' =>
        have hz₄ := hz.inside
        have hz₃ := (hz₄.of_grows hp.free.extends.toGrows).inside
        have hz₂ := (hz₃.of_grows hb.free.extends.toGrows).inside
        have hz₁ := hz₂.of_grows hc.free.extends.toGrows
        have hs₁ := StmtRun?.retraced start hst hst' hs hz₁
        have hs₂ := hc.retraced hc' hs₁ hz₂
        have hf₂ := hc.free.extends.function.trans (hst.free.extends.function.trans hf)
        have hf₂' := hc'.free.extends.function.trans (hst'.free.extends.function.trans hf')
        have hstart := StmtRun?.matched start hst hst' hs hz₁ hf hf'
        have hbody := StmtRun.matched body hb hb' hs₂.loopBody hz₃ hf₂ hf₂'
        have hle := hp'.free.extends.signatures.wanted_result?_le f
        have hle' := (hc'.free.extends.signatures.trans
          (hb'.free.extends.signatures.trans hp'.free.extends.signatures)).wanted_result?_le f
        exact (((hstart.mono hle').append (hbody.mono hle)).append (.of_none hp.step_returns)).append
          (.other (by simp))
  | .returnValue (some value) span => exact h.matched_return h' hs hz hf hf'
  | .block body span =>
    cases h with
    | block h =>
      cases h' with
      | block h' =>
        exact (StmtsRun.matched body h h' hs hz.inside hf hf').append (.other (by simp))
  | .declare .. | .assign .. | .breakLoop .. | .continueLoop .. | .returnValue none _ | .print ..
  | .expression .. | .call .. =>
    cases h <;> exact .other (by simp)

theorem StmtRun?.matched (stmt : Option Stmt) {s s' t t' : Checker} {x y : Option Typed.Stmt}
    (h : StmtRun? stmt s x s') (h' : StmtRun? stmt t y t') (hs : z.Retraced s t) (hz : s'.Before z)
    (hf : s.scope.function = some f) (hf' : t.scope.function = some f) :
    ReturnsMatched (t'.result? f) (Typed.partsOfStmt? x) (Typed.partsOfStmt? y) := by
  match stmt with
  | none =>
    cases h
    exact .nil
  | some stmt =>
    cases h with
    | present h =>
      cases h' with
      | present h' => exact StmtRun.matched stmt h h' hs hz hf hf'

theorem StmtsRun.matched (stmts : List Stmt) {s s' t t' : Checker} {xs ys : List Typed.Stmt}
    (h : StmtsRun stmts s xs s') (h' : StmtsRun stmts t ys t') (hs : z.Retraced s t)
    (hz : s'.Before z) (hf : s.scope.function = some f) (hf' : t.scope.function = some f) :
    ReturnsMatched (t'.result? f) (Typed.partsOfStmts xs) (Typed.partsOfStmts ys) := by
  match stmts with
  | [] =>
    cases h
    exact .nil
  | stmt :: stmts =>
    cases h with
    | cons h hrest =>
      cases h' with
      | cons h' hrest' =>
        have hz₁ := hz.of_grows hrest.free.extends.toGrows
        have hs₁ := StmtRun.retraced stmt h h' hs hz₁
        have hle := hrest'.free.extends.signatures.wanted_result?_le f
        exact ((StmtRun.matched stmt h h' hs hz₁ hf hf').mono hle).append
          (StmtsRun.matched stmts hrest hrest' hs₁ hz (h.free.extends.function.trans hf)
            (h'.free.extends.function.trans hf'))

end

end Statements

section Results

variable {N : String → Prop} {f : String} {s s₁ s₂ s' : Checker}

/-- Expressions leave a result alone that is open in the end. -/
theorem Steps.result?_eq (h : Steps N s s') (hopen : ¬ s'.Fixes f) : s'.result? f = s.result? f := by
  induction h with
  | refl => rfl
  | tail _ step ih =>
    refine Eq.trans ?_ (ih fun hfix => hopen (hfix.of_grows step.extends.signatures))
    cases step with
    | report | assign | declare => rfl
    | @pin callee signature hs hc =>
      have hne : f ≠ callee := by
        rintro rfl
        exact hopen ⟨_, Table.find?_insert_self _ _ _, rfl⟩
      exact Checker.result?_withSignature_of_ne _ _ hne

/-- While the body of another function is checked, too. -/
theorem Advance.result?_eq (h : Advance N s s') (hf : s.scope.function ≠ some f)
    (hopen : ¬ s'.Fixes f) : s'.result? f = s.result? f := by
  induction h with
  | steps h => exact h.result?_eq hopen
  | trans h₁ h₂ ih₁ ih₂ =>
    have hmid := ih₂ (by rwa [h₁.extends.function]) hopen
    exact hmid.trans (ih₁ hf fun hfix => hopen (hfix.of_grows h₂.extends.signatures))
  | bare | valued => rfl
  | @infer s s₁ g signature current type hg hs hx h hc =>
    have hne : f ≠ g := by
      rintro rfl
      exact hf hg
    refine (Checker.result?_withSignature_of_ne _ _ hne).trans (h.result?_eq fun hfix => hopen ?_)
    exact hfix.of_grows (h.grows_inferred hs hc type).signatures
  | inner _ hfun _ ih => exact ih (by rwa [Checker.withScope, hfun]) hopen

/-- Unless the result of `f` becomes fixed, it stays or is set to a type that is returned. -/
def Checker.ResultFrom (f : String) (parts : List Typed.Stmt) (s s' : Checker) : Prop :=
  ¬ s'.Fixes f → s'.result? f = s.result? f ∨
    ∃ type, Typed.Returns parts type ∧ s'.result? f = some type

namespace Checker.ResultFrom

variable {xs ys : List Typed.Stmt}

theorem of_steps (h : Steps N s s') : Checker.ResultFrom f xs s s' :=
  fun hopen => .inl (h.result?_eq hopen)

theorem trans (h₁ : Checker.ResultFrom f xs s s₁) (h₂ : Checker.ResultFrom f ys s₁ s₂)
    (hg : s₁.signatures.Grows s₂.signatures) : Checker.ResultFrom f (xs ++ ys) s s₂ := by
  intro hopen
  obtain hsame | ⟨type, hret, hset⟩ := h₂ hopen
  · rw [hsame]
    refine (h₁ fun hfix => hopen (hfix.of_grows hg)).imp_right ?_
    rintro ⟨type, hret, hset⟩
    exact ⟨type, Typed.returns_append.mpr (.inl hret), hset⟩
  · exact .inr ⟨type, Typed.returns_append.mpr (.inr hret), hset⟩

theorem append (h : Checker.ResultFrom f xs s s') (ys : List Typed.Stmt) :
    Checker.ResultFrom f (xs ++ ys) s s' :=
  h.trans (of_steps (N := fun _ => True) .refl) (.refl _)

end Checker.ResultFrom

/-- A return widens an inferred result to the type of its value, or leaves it. -/
theorem StmtRun.resultFrom_return {value : Expr} {span : Span} {x : Typed.Stmt}
    (h : StmtRun (.returnValue (some value) span) s x s') (hf : s.scope.function = some f) :
    Checker.ResultFrom f x.parts s s' := by
  intro hopen
  cases h with
  | @returnFixed _ _ _ g signature typed s₁ hg hs h _ hx _ =>
    cases hf.symm.trans hg
    have hfix : s.Fixes f := ⟨signature, hs, hx⟩
    exact absurd (hfix.of_grows h.free.extends.signatures) hopen
  | @returnInferred _ _ _ g signature typed s₁ current hg hs h _ _ hc =>
    cases hf.symm.trans hg
    have hset : some (joinKnown signature.result (some typed.type)) = s.result? f ∨
        joinKnown signature.result (some typed.type) = typed.type := by
      rw [Checker.result?_eq hs]
      cases hr : signature.result with
      | none => exact .inr (joinKnown_none _)
      | some type => exact (join_eq_or type typed.type).imp_left (congrArg some)
    have hend := s₁.result?_withSignature_self f
      { current with result := some (joinKnown signature.result (some typed.type)) }
    refine hset.imp hend.trans fun htype => ?_
    exact ⟨typed.type, Typed.returns_singleton.mpr ⟨_, _, rfl, rfl⟩, hend.trans (congrArg some htype)⟩

mutual

theorem StmtRun.resultFrom {stmt : Stmt} {s s' : Checker} {x : Typed.Stmt} (h : StmtRun stmt s x s')
    (hf : s.scope.function = some f) : Checker.ResultFrom f x.parts s s' := by
  match h with
  | .declare => exact .of_steps (.single (.declare (N := fun _ => True) trivial))
  | .declareValue h _ => exact .of_steps (h.free.tail (.declare trivial))
  | .assign h => exact .of_steps (h.steps (N := fun _ => True) trivial fun _ _ => trivial)
  | .branch hc hy hn =>
    have hf₁ := hc.free.extends.function.trans hf
    have hcond : Checker.ResultFrom f [] s _ := .of_steps hc.free
    have hyes := hcond.trans (hy.resultFrom hf₁) hy.free.extends.signatures
    exact (hyes.trans (hn.resultFrom hf₁) hn.free.extends.signatures).append _
  | .whileLoop hc hb =>
    have hcond : Checker.ResultFrom f [] s _ := .of_steps hc.free
    have hbody := hcond.trans (hb.resultFrom (hc.free.extends.function.trans hf))
      hb.free.extends.signatures
    exact (hbody.append []).append _
  | .forLoop hs hc hb hp =>
    have hf₁ := hs.free.extends.function.trans hf
    have hf₂ := hc.free.extends.function.trans hf₁
    have hnone : Checker.ResultFrom f [] _ _ := .of_steps hc.free
    have hcond := (hs.resultFrom hf).trans hnone hc.free.extends.signatures
    rw [List.append_nil] at hcond
    have hbody := hcond.trans (hb.resultFrom hf₂) hb.free.extends.signatures
    exact (hbody.trans (hp.resultFrom hf₂) hp.free.extends.signatures).append _
  | .breakLoop _ | .continueLoop _ | .returnBare _ _ _ => exact fun _ => .inl rfl
  | .returnFixed hg hs hv hb hx ht => exact (StmtRun.returnFixed hg hs hv hb hx ht).resultFrom_return hf
  | .returnInferred hg hs hv hb hx hc =>
    exact (StmtRun.returnInferred hg hs hv hb hx hc).resultFrom_return hf
  | .print h | .expression h => exact .of_steps h.free
  | .block h => exact (h.resultFrom hf).append _
  | .call _ h => exact .of_steps h.free

theorem StmtRun?.resultFrom {stmt : Option Stmt} {s s' : Checker} {x : Option Typed.Stmt}
    (h : StmtRun? stmt s x s') (hf : s.scope.function = some f) :
    Checker.ResultFrom f (Typed.partsOfStmt? x) s s' := by
  match h with
  | .missing => exact fun _ => .inl rfl
  | .present h => exact h.resultFrom hf

theorem StmtsRun.resultFrom {stmts : List Stmt} {s s' : Checker} {xs : List Typed.Stmt}
    (h : StmtsRun stmts s xs s') (hf : s.scope.function = some f) :
    Checker.ResultFrom f (Typed.partsOfStmts xs) s s' := by
  match h with
  | .nil => exact fun _ => .inl rfl
  | .cons h hs =>
    exact (h.resultFrom hf).trans (hs.resultFrom (h.free.extends.function.trans hf))
      hs.free.extends.signatures

end

end Results

end Numlet
