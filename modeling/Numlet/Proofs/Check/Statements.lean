import Numlet.Proofs.Check.Growth

/-!
Runs of the checker over statements, with one rule for each thing that can happen, and what they do to
the state.
-/
namespace Numlet
open Checking

/-- A run over a part that may be missing. -/
inductive ExprRun? : Option Expr → Checker → Option Typed.Expr → Checker → Prop
  | missing {s} : ExprRun? none s none s
  | present {e s t s'} (h : ExprRun e none s t s') : ExprRun? (some e) s (some t) s'

mutual

/-- `StmtRun stmt s t s'`: from the state `s`, checking `stmt` gives `t` and ends in the state `s'`. -/
inductive StmtRun : Stmt → Checker → Typed.Stmt → Checker → Prop
  | declare {name declared span s} :
      StmtRun (.declare name declared none span) s
        (.declare (s.nextSlot name) none (declared.getD .i32) span)
        (s.declared name (declared.getD .i32) declared.isSome)
  | declareValue {name declared value span s typed s₁} (h : ExprRun value declared s typed s₁)
      (hf : ∀ type, declared = some type → typed.type.rank ≤ type.rank) :
      StmtRun (.declare name declared (some value) span) s
        (.declare (s₁.nextSlot name) (some typed) (declared.getD typed.type) span)
        (s₁.declared name (declared.getD typed.type) declared.isSome)
  | assign {name nameSpan value span s slot typed type s₁}
      (h : AssignRun name nameSpan.start value s slot typed type s₁) :
      StmtRun (.assign (.var name nameSpan) value span) s (.assign slot typed span) s₁
  | branch {condition yes no span s c s₁ y s₂ n s₃} (hc : ExprRun condition none s c s₁)
      (hy : StmtRun yes s₁ y s₂) (hn : StmtRun? no (s₂.withScope s₁.scope) n s₃) :
      StmtRun (.branch condition yes no span) s (.branch c y n span) (s₃.withScope s₁.scope)
  | whileLoop {condition body span s c s₁ b s₂} (hc : ExprRun condition none s c s₁)
      (hb : StmtRun body (s₁.withScope s₁.scope.loopBody) b s₂) :
      StmtRun (.whileLoop condition body span) s (.loop none (some c) b none span)
        (s₂.withScope s₁.scope)
  | forLoop {start condition step body span s st s₁ c s₂ b s₃ sp s₄} (hs : StmtRun? start s st s₁)
      (hc : ExprRun? condition s₁ c s₂) (hb : StmtRun body (s₂.withScope s₂.scope.loopBody) b s₃)
      (hp : StmtRun? (step.map Stmt.ofExpr) (s₃.withScope s₂.scope) sp s₄) :
      StmtRun (.forLoop start condition step body span) s (.loop st c b sp span)
        (s₄.withScope s.scope)
  | breakLoop {span s} (h : s.scope.inLoop = true) :
      StmtRun (.breakLoop span) s (.breakLoop span) s
  | continueLoop {span s} (h : s.scope.inLoop = true) :
      StmtRun (.continueLoop span) s (.continueLoop span) s
  | returnBare {span s f signature} (hf : s.scope.function = some f)
      (hs : s.signatures.find? f = some signature) (hr : signature.result = none) :
      StmtRun (.returnValue none span) s (.returnValue none span) { s with bareReturn := true }
  | returnFixed {value span s f signature typed s₁} (hf : s.scope.function = some f)
      (hs : s.signatures.find? f = some signature) (h : ExprRun value signature.result s typed s₁)
      (hb : s₁.bareReturn = false) (hx : signature.resultFixed = true)
      (ht : typed.type.rank ≤ (signature.result.getD .i32).rank) :
      StmtRun (.returnValue (some value) span) s (.returnValue (some typed) span)
        { s₁ with valuedReturn := true }
  | returnInferred {value span s f signature typed s₁ current} (hf : s.scope.function = some f)
      (hs : s.signatures.find? f = some signature) (h : ExprRun value signature.result s typed s₁)
      (hb : s₁.bareReturn = false) (hx : signature.resultFixed = false)
      (hc : s₁.signatures.find? f = some current) :
      StmtRun (.returnValue (some value) span) s (.returnValue (some typed) span)
        { s₁.withSignature f { current with
          result := some (NumType.joinKnown signature.result (some typed.type)) } with
          valuedReturn := true }
  | print {value span s typed s₁} (h : ExprRun value none s typed s₁) :
      StmtRun (.print value span) s (.print typed span) s₁
  | block {body span s typed s₁} (h : StmtsRun body s typed s₁) :
      StmtRun (.block body span) s (.block typed span) (s₁.withScope s.scope)
  | expression {value span s typed s₁} (h : ExprRun value none s typed s₁) :
      StmtRun (.expression value span) s (.expression typed) s₁
  | call {callee arguments span s signature typed s₁}
      (hs : s.signatures.find? callee = some signature)
      (h : ArgumentsRun arguments signature.parameters s typed s₁) :
      StmtRun (.call callee arguments span) s (.call callee typed signature.parameters span) s₁

inductive StmtRun? : Option Stmt → Checker → Option Typed.Stmt → Checker → Prop
  | missing {s} : StmtRun? none s none s
  | present {stmt s t s'} (h : StmtRun stmt s t s') : StmtRun? (some stmt) s (some t) s'

inductive StmtsRun : List Stmt → Checker → List Typed.Stmt → Checker → Prop
  | nil {s} : StmtsRun [] s [] s
  | cons {stmt stmts s t s₁ ts s₂} (h : StmtRun stmt s t s₁) (hs : StmtsRun stmts s₁ ts s₂) :
      StmtsRun (stmt :: stmts) s (t :: ts) s₂

end

theorem within_eq_ok {α : Type} {enter : Scope → Scope} {inner : Checking α} {s s' : Checker} {a : α}
    (h : within enter inner s = .ok a s') :
    ∃ s₁, inner (s.withScope (enter s.scope)) = .ok a s₁ ∧ s' = s₁.withScope s.scope := by
  unfold within at h
  unfold Checker.withScope
  cases hi : inner { s with scope := enter s.scope } with
  | ok b s₁ =>
    rw [hi] at h
    cases h
    exact ⟨s₁, rfl, rfl⟩
  | error d s₁ =>
    rw [hi] at h
    cases h

theorem ExprRun?.of_check {e : Option Expr} {s s' : Checker} {t : Option Typed.Expr}
    (h : checkOption (checkExpr · none) e s = .ok t s') : ExprRun? e s t s' := by
  cases e with
  | none =>
    cases h
    exact .missing
  | some e =>
    obtain ⟨t, s₁, ht, k⟩ := bind_eq_ok.mp h
    cases k
    exact .present (ExprRun.of_check e ht)

theorem checkJump_eq_ok {construct : String} {span : Span} {s s' : Checker}
    (h : checkJump construct span s = .ok () s') : s.scope.inLoop = true ∧ s' = s := by
  obtain ⟨s₀, s₁, hg, k⟩ := bind_eq_ok.mp h
  cases hg
  cases hl : s.scope.inLoop with
  | true =>
    rw [if_neg (by simp [hl])] at k
    cases k
    exact ⟨rfl, rfl⟩
  | false =>
    rw [if_pos (by simp [hl])] at k
    cases k


theorem StmtRun.of_checkDeclare {name : String} {declared : Option NumType} {value : Option Expr}
    {span : Span} {s s' : Checker} {t : Typed.Stmt}
    (h : checkDeclare name declared value span s = .ok t s') :
    StmtRun (.declare name declared value span) s t s' := by
  cases value with
  | none =>
    obtain ⟨typed, s₁, hv, k⟩ := bind_eq_ok.mp h
    cases hv
    cases declared <;>
    · obtain ⟨slot, s₂, hd, k₁⟩ := bind_eq_ok.mp k
      rw [declareLocal_run] at hd
      cases hd
      cases k₁
      exact .declare
  | some value =>
    obtain ⟨typed?, s₁, hv, k⟩ := bind_eq_ok.mp h
    obtain ⟨typed, s₂, ht, k'⟩ := bind_eq_ok.mp hv
    cases k'
    have hrun := ExprRun.of_check value ht
    cases declared with
    | none =>
      obtain ⟨slot, s₃, hd, k₁⟩ := bind_eq_ok.mp k
      rw [declareLocal_run] at hd
      cases hd
      cases k₁
      exact .declareValue hrun (by simp)
    | some type =>
      by_cases hf : (NumType.assign? type typed.type true).isNone = true
      · simp only [hf, if_true] at k
        cases k
      · simp only [hf] at k
        obtain ⟨slot, s₃, hd, k₁⟩ := bind_eq_ok.mp k
        rw [declareLocal_run] at hd
        cases hd
        cases k₁
        rw [NumType.assign?_fixed_isNone] at hf
        refine .declareValue hrun ?_
        rintro _ ⟨⟩
        omega

theorem StmtRun.of_checkReturn {value : Option Expr} {span : Span} {s s' : Checker} {t : Typed.Stmt}
    (h : checkReturn value span s = .ok t s') : StmtRun (.returnValue value span) s t s' := by
  obtain ⟨s₀, s₁, hg, k⟩ := bind_eq_ok.mp h
  cases hg
  cases hf : s.scope.function with
  | none =>
    rw [hf] at k
    cases k
  | some f =>
    rw [hf] at k
    obtain ⟨signature, s₁, hs, k₁⟩ := bind_eq_ok.mp k
    obtain ⟨hsig, rfl⟩ := signatureOf_eq_ok hs
    cases value with
    | none =>
      cases hr : signature.result with
      | some result =>
        simp only [hr] at k₁
        cases k₁
      | none =>
        simp only [hr] at k₁
        cases k₁
        exact .returnBare hf hsig hr
    | some value =>
      obtain ⟨typed, s₂, ht, k₂⟩ := bind_eq_ok.mp k₁
      have hrun := ExprRun.of_check value ht
      obtain ⟨s₃, s₄, hg, k₃⟩ := bind_eq_ok.mp k₂
      cases hg
      cases hb : s₂.bareReturn with
      | true =>
        rw [if_pos hb] at k₃
        cases k₃
      | false =>
        rw [if_neg (by simp [hb])] at k₃
        obtain ⟨_, s₃, hm, k₄⟩ := bind_eq_ok.mp k₃
        cases hm
        cases hx : signature.resultFixed with
        | true =>
          rw [if_pos hx] at k₄
          by_cases hf' : (NumType.assign? (signature.result.getD .i32) typed.type true).isNone = true
          · simp only [hf', if_true] at k₄
            cases k₄
          · simp only [hf'] at k₄
            cases k₄
            rw [NumType.assign?_fixed_isNone] at hf'
            exact .returnFixed hf hsig hrun hb hx (by omega)
        | false =>
          rw [if_neg (by simp [hx])] at k₄
          -- A function that is known before its value is checked is known afterwards.
          have hkeep := (hrun.steps (N := fun _ => True) (by simp)).extends.signatures
          obtain ⟨current, hc, _⟩ := hkeep.known f signature hsig
          obtain ⟨s₃, s₄, hg, k₅⟩ := bind_eq_ok.mp k₄
          cases hg
          simp only [hc] at k₅
          cases k₅
          exact .returnInferred hf hsig hrun hb hx hc

mutual

theorem StmtRun.of_check (stmt : Stmt) {s s' : Checker} {t : Typed.Stmt}
    (h : checkStmt stmt s = .ok t s') : StmtRun stmt s t s' := by
  match stmt with
  | .function .. =>
    rw [checkStmt] at h
    cases h
  | .declare name declared value span =>
    rw [checkStmt] at h
    exact .of_checkDeclare h
  | .assign target value span =>
    rw [checkStmt] at h
    obtain ⟨⟨slot, typed, type⟩, s₁, ha, k⟩ := bind_eq_ok.mp h
    obtain ⟨name, nameSpan, rfl, hrun⟩ := AssignRun.of_check target value ha
    cases k
    exact .assign hrun
  | .branch condition yes no span =>
    rw [checkStmt] at h
    obtain ⟨c, s₁, hc, k⟩ := bind_eq_ok.mp h
    obtain ⟨y, s₂, hy, k₁⟩ := bind_eq_ok.mp k
    obtain ⟨n, s₃, hn, k₂⟩ := bind_eq_ok.mp k₁
    cases k₂
    obtain ⟨s₄, hy', rfl⟩ := within_eq_ok hy
    obtain ⟨s₅, hn', rfl⟩ := within_eq_ok hn
    change StmtRun _ s _ (s₅.withScope s₁.scope)
    exact .branch (ExprRun.of_check condition hc) (StmtRun.of_check yes hy')
      (StmtRun?.of_check no hn')
  | .whileLoop condition body span =>
    rw [checkStmt] at h
    obtain ⟨c, s₁, hc, k⟩ := bind_eq_ok.mp h
    obtain ⟨b, s₂, hb, k₁⟩ := bind_eq_ok.mp k
    cases k₁
    obtain ⟨s₃, hb', rfl⟩ := within_eq_ok hb
    exact .whileLoop (ExprRun.of_check condition hc) (StmtRun.of_check body hb')
  | .forLoop start condition step body span =>
    rw [checkStmt] at h
    obtain ⟨s₁, hw, rfl⟩ := within_eq_ok h
    obtain ⟨st, s₂, hs, k⟩ := bind_eq_ok.mp hw
    obtain ⟨c, s₃, hc, k₁⟩ := bind_eq_ok.mp k
    obtain ⟨b, s₄, hb, k₂⟩ := bind_eq_ok.mp k₁
    obtain ⟨sp, s₅, hp, k₃⟩ := bind_eq_ok.mp k₂
    cases k₃
    obtain ⟨s₆, hb', rfl⟩ := within_eq_ok hb
    refine .forLoop (StmtRun?.of_check start hs) (ExprRun?.of_check hc)
      (StmtRun.of_check body hb') ?_
    cases step with
    | none =>
      cases hp
      exact .missing
    | some e =>
      obtain ⟨t, s₇, ht, k₄⟩ := bind_eq_ok.mp hp
      cases k₄
      -- The step is checked as the statement that it makes, which is no part of the loop.
      cases e with
      | assign target value espan =>
        obtain ⟨⟨slot, typed, type⟩, s₈, ha, k₅⟩ := bind_eq_ok.mp ht
        obtain ⟨name, nameSpan, rfl, hrun⟩ := AssignRun.of_check target value ha
        cases k₅
        exact .present (.assign hrun)
      | call callee arguments cspan =>
        obtain ⟨⟨typed, parameters⟩, s₈, ha, k₅⟩ := bind_eq_ok.mp ht
        cases k₅
        obtain ⟨signature, hs, hlen, rfl, ha'⟩ := callWith_eq_ok ha
        exact .present (.call hs (ArgumentsRun.of_check callee arguments hlen ha'))
      | literal | var | binary | unary | update | convert =>
        obtain ⟨typed, s₈, ha, k₅⟩ := bind_eq_ok.mp ht
        cases k₅
        exact .present (.expression (ExprRun.of_check _ ha))
  | .breakLoop span =>
    rw [checkStmt] at h
    obtain ⟨_, s₁, hj, k⟩ := bind_eq_ok.mp h
    cases k
    obtain ⟨hl, rfl⟩ := checkJump_eq_ok hj
    exact .breakLoop hl
  | .continueLoop span =>
    rw [checkStmt] at h
    obtain ⟨_, s₁, hj, k⟩ := bind_eq_ok.mp h
    cases k
    obtain ⟨hl, rfl⟩ := checkJump_eq_ok hj
    exact .continueLoop hl
  | .returnValue value span =>
    rw [checkStmt] at h
    exact .of_checkReturn h
  | .print value span =>
    rw [checkStmt] at h
    obtain ⟨typed, s₁, hv, k⟩ := bind_eq_ok.mp h
    cases k
    exact .print (ExprRun.of_check value hv)
  | .block body span =>
    rw [checkStmt] at h
    obtain ⟨typed, s₁, hb, k⟩ := bind_eq_ok.mp h
    cases k
    obtain ⟨s₂, hb', rfl⟩ := within_eq_ok hb
    exact .block (StmtsRun.of_check body hb')
  | .expression value span =>
    rw [checkStmt] at h
    obtain ⟨typed, s₁, hv, k⟩ := bind_eq_ok.mp h
    cases k
    exact .expression (ExprRun.of_check value hv)
  | .call callee arguments span =>
    rw [checkStmt] at h
    obtain ⟨⟨typed, parameters⟩, s₁, hc, k⟩ := bind_eq_ok.mp h
    cases k
    obtain ⟨signature, hs, hlen, rfl, ha⟩ := callWith_eq_ok hc
    exact .call hs (ArgumentsRun.of_check callee arguments hlen ha)

theorem StmtRun?.of_check (stmt : Option Stmt) {s s' : Checker} {t : Option Typed.Stmt}
    (h : checkStmt? stmt s = .ok t s') : StmtRun? stmt s t s' := by
  match stmt with
  | none =>
    rw [checkStmt?] at h
    cases h
    exact .missing
  | some stmt =>
    rw [checkStmt?] at h
    obtain ⟨typed, s₁, hs, k⟩ := bind_eq_ok.mp h
    cases k
    exact .present (StmtRun.of_check stmt hs)

theorem StmtsRun.of_check (stmts : List Stmt) {s s' : Checker} {ts : List Typed.Stmt}
    (h : checkStmts stmts s = .ok ts s') : StmtsRun stmts s ts s' := by
  match stmts with
  | [] =>
    rw [checkStmts] at h
    cases h
    exact .nil
  | stmt :: stmts =>
    rw [checkStmts] at h
    obtain ⟨t, s₁, hs, k⟩ := bind_eq_ok.mp h
    obtain ⟨ts, s₂, hss, k₁⟩ := bind_eq_ok.mp k
    cases k₁
    exact .cons (StmtRun.of_check stmt hs) (StmtsRun.of_check stmts hss)

end

variable {N : String → Prop}

theorem ExprRun?.steps {e : Option Expr} {s s' : Checker} {t : Option Typed.Expr}
    (h : ExprRun? e s t s') (hn : ∀ x ∈ namesOfExpr? e, N x) : Steps N s s' := by
  cases h with
  | missing => exact .refl
  | present h => exact h.steps hn

/-- A part that works in a copy of the scope. -/
theorem Advance.copied {s s' : Checker} (h : Advance N s s') : Advance N s (s'.withScope s.scope) :=
  .inner rfl rfl h

/-- The body of a loop. -/
theorem Advance.looped {s s' : Checker} (h : Advance N (s.withScope s.scope.loopBody) s') :
    Advance N s (s'.withScope s.scope) :=
  @Advance.inner N s s' s.scope.loopBody rfl rfl h

mutual

theorem StmtRun.advance {stmt : Stmt} {s s' : Checker} {t : Typed.Stmt} (h : StmtRun stmt s t s')
    (hn : ∀ x ∈ stmt.names, N x) : Advance N s s' := by
  match h with
  | .declare =>
    simp only [Stmt.names, List.mem_cons] at hn
    exact .steps (.single (.declare (hn _ (.inl rfl))))
  | .declareValue h _ =>
    simp only [Stmt.names, List.mem_cons] at hn
    exact .steps ((h.steps fun x hx => hn x (.inr hx)).tail (.declare (hn _ (.inl rfl))))
  | .assign h =>
    simp only [Stmt.names, Expr.names, List.mem_append, List.mem_singleton] at hn
    exact .steps (h.steps (hn _ (.inl rfl)) fun x hx => hn x (.inr hx))
  | .branch hc hy hn' =>
    simp only [Stmt.names, List.mem_append] at hn
    have hcond := hc.steps fun x hx => hn x (.inl (.inl hx))
    have hyes := (hy.advance fun x hx => hn x (.inl (.inr hx))).copied
    have hno := (hn'.advance fun x hx => hn x (.inr hx)).copied
    exact (Advance.steps hcond).trans (hyes.trans hno)
  | .whileLoop hc hb =>
    simp only [Stmt.names, List.mem_append] at hn
    have hcond := hc.steps fun x hx => hn x (.inl hx)
    have hbody := (hb.advance fun x hx => hn x (.inr hx)).looped
    exact (Advance.steps hcond).trans hbody
  | .forLoop hs hc hb hp =>
    simp only [Stmt.names, List.mem_append] at hn
    have hstart := hs.advance fun x hx => hn x (.inl (.inl (.inl hx)))
    have hcond := hc.steps fun x hx => hn x (.inl (.inl (.inr hx)))
    have hbody := (hb.advance fun x hx => hn x (.inr hx)).looped
    have hstep := hp.advance fun x hx => hn x (.inl (.inr (namesOfStep _ ▸ hx)))
    exact (hstart.trans ((Advance.steps hcond).trans (hbody.trans hstep))).copied
  | .breakLoop _ | .continueLoop _ => exact .steps .refl
  | .returnBare hf hs hr => exact .bare hf hs hr
  | .returnFixed hf hs h hb hx _ =>
    have hvalue := h.steps hn
    obtain ⟨later, hl, hg⟩ := hvalue.extends.signatures.known _ _ hs
    have hfun := hvalue.extends.function.trans hf
    exact (Advance.steps hvalue).trans (.valued hfun hl (.inl (hg.fixed hx)) hb)
  | .returnInferred hf hs h hb hx hc =>
    have hvalue := h.steps hn
    have hfun := hvalue.extends.function.trans hf
    exact (Advance.infer hf hs hx hvalue hc).trans
      (.valued hfun (Table.find?_insert_self _ _ _) (.inr rfl) hb)
  | .print h => exact .steps (h.steps hn)
  | .block h => exact (h.advance hn).copied
  | .expression h => exact .steps (h.steps hn)
  | .call _ h =>
    simp only [Stmt.names, List.mem_cons] at hn
    exact .steps (h.steps fun x hx => hn x (.inr hx))

theorem StmtRun?.advance {stmt : Option Stmt} {s s' : Checker} {t : Option Typed.Stmt}
    (h : StmtRun? stmt s t s') (hn : ∀ x ∈ namesOfStmt? stmt, N x) : Advance N s s' := by
  match h with
  | .missing => exact .steps .refl
  | .present h => exact h.advance hn

theorem StmtsRun.advance {stmts : List Stmt} {s s' : Checker} {ts : List Typed.Stmt}
    (h : StmtsRun stmts s ts s') (hn : ∀ x ∈ namesOfStmts stmts, N x) : Advance N s s' := by
  match h with
  | .nil => exact .steps .refl
  | .cons h hs =>
    simp only [namesOfStmts, List.mem_append] at hn
    exact (h.advance fun x hx => hn x (.inl hx)).trans (hs.advance fun x hx => hn x (.inr hx))

end

end Numlet
