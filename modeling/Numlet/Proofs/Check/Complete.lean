import Numlet.Proofs.Check.Calls
import Numlet.Proofs.Check.Passes

/-!
Every run is a check that succeeds. Together with the converse, runs are what the checker computes, so two
runs from the same state agree.
-/
namespace Numlet
open Checking

namespace Checking

theorem variableOf_run {name : String} {s : Checker} {v : Variable} (h : s.scope.find? name = some v)
    (span : Span) : variableOf name span s = .ok v s := by
  have hlookup : lookup? name s = .ok (s.scope.find? name) s := rfl
  refine (bind_of_ok hlookup).trans ?_
  rw [h]
  rfl

theorem signatureOf_run {name : String} {s : Checker} {signature : Signature}
    (h : s.signatures.find? name = some signature) (span : Span) :
    signatureOf name span s = .ok signature s := by
  refine (bind_of_ok (get_eq_ok.mpr ⟨rfl, rfl⟩)).trans ?_
  rw [h]
  rfl

theorem checkArity_run {callee : String} {arguments : List Expr} {expected : Nat}
    (h : arguments.length = expected) (span : Span) (s : Checker) :
    checkArity callee arguments expected span s = .ok () s := by
  unfold checkArity
  rw [if_neg (by omega), List.drop_of_length_le (by omega)]
  rfl

theorem callWith_run {callee : String} {arguments : List Expr} {s s' : Checker} {signature : Signature}
    {check : List NumType → Checking (List Typed.Expr)} {typed : List Typed.Expr}
    (hs : s.signatures.find? callee = some signature) (hlen : arguments.length = signature.parameters.length)
    (h : check signature.parameters s = .ok typed s') (span : Span) :
    callWith callee arguments span check s = .ok (typed, signature.parameters) s' := by
  unfold callWith
  rw [bind_of_ok (signatureOf_run hs span), bind_of_ok (checkArity_run hlen span s), bind_of_ok h]
  rfl

theorem callResult_run {callee : String} {s : Checker} {signature : Signature} {type : NumType}
    (hs : s.signatures.find? callee = some signature)
    (hc : (signature.resultFixed || signature.checked) = true) (hr : signature.result = some type)
    (span : Span) : callResult callee span s = .ok type s := by
  unfold callResult
  rw [bind_of_ok (signatureOf_run hs span), if_pos hc, hr]
  rfl

theorem callResult_run_pinning {callee : String} {s : Checker} {signature : Signature}
    (hs : s.signatures.find? callee = some signature)
    (hc : (signature.resultFixed || signature.checked) = false) (span : Span) :
    callResult callee span s =
      .ok (signature.result.getD .i32) (s.pinned callee signature (signature.result.getD .i32)) := by
  unfold callResult
  rw [bind_of_ok (signatureOf_run hs span), if_neg (by simp [hc])]
  rfl

theorem binaryTypes_run {op : BinaryOp} {left right operandType type : NumType}
    (h : op.Types left right operandType type) (span : Span) (s : Checker) :
    binaryTypes op left right span s = .ok (operandType, type) s := by
  unfold BinaryOp.Types at h
  unfold binaryTypes
  by_cases hl : op.isLogical = true
  · rw [if_pos hl] at h ⊢
    obtain ⟨rfl, rfl⟩ := h
    rfl
  · rw [if_neg hl] at h ⊢
    obtain ⟨rfl, hr, rfl⟩ := h
    have hwhole : ¬ (op = .remainder ∧ (left.join right).isFloat = true) := by
      rintro ⟨hop, hfloat⟩
      rw [hr hop] at hfloat
      cases hfloat
    simp only [hwhole, if_false]
    rfl

section Assignments

variable {name : String} {check : Option NumType → Checking Typed.Expr} {s s₁ : Checker}
  {typed : Typed.Expr}

theorem assignTo_run_bound {v : Variable} {type : NumType}
    (h : check ((s.scope.find? name).map (·.type)) s = .ok typed s₁) (hv : s₁.scope.find? name = some v)
    (ht : NumType.assign? v.type typed.type v.fixed = some type) (span : Span) :
    assignTo (.var name span) check s = .ok (v.slot, typed, type) (s₁.assigned name v.slot type) := by
  have hlookup : ∀ s : Checker, lookup? name s = .ok (s.scope.find? name) s := fun _ => rfl
  refine (bind_of_ok (hlookup s)).trans ((bind_of_ok h).trans ((bind_of_ok (hlookup s₁)).trans ?_))
  rw [hv]
  simp only [ht]
  exact bind_of_ok (record_run _ _ _)

theorem assignTo_run_fresh (h : check ((s.scope.find? name).map (·.type)) s = .ok typed s₁)
    (hv : s₁.scope.find? name = none) (ha : s₁.options.autoDeclare = true) (span : Span) :
    assignTo (.var name span) check s = .ok (s₁.nextSlot name, typed, typed.type)
      ((s₁.reported (.autoDeclared name typed.type span.start)).declared name typed.type false) := by
  have hlookup : ∀ s : Checker, lookup? name s = .ok (s.scope.find? name) s := fun _ => rfl
  refine (bind_of_ok (hlookup s)).trans ((bind_of_ok h).trans ((bind_of_ok (hlookup s₁)).trans ?_))
  rw [hv]
  refine (bind_of_ok (get_eq_ok.mpr ⟨rfl, rfl⟩)).trans ?_
  rw [if_pos ha]
  exact bind_of_ok (declareLocal_run (s₁.reported (.autoDeclared name typed.type span.start)) _ _ _)

end Assignments

end Checking

theorem ArgumentsRun.arity {es : List Expr} {types : List NumType} {s s' : Checker} {ts : List Typed.Expr}
    (h : ArgumentsRun es types s ts s') : es.length = types.length := by
  match h with
  | .nil => rfl
  | .cons _ _ hs => exact congrArg (· + 1) hs.arity

mutual

theorem ExprRun.check {e : Expr} {hint : Option NumType} {s s' : Checker} {t : Typed.Expr}
    (h : ExprRun e hint s t s') : checkExpr e hint s = .ok t s' := by
  match h with
  | .literal =>
    rw [checkExpr]
    rfl
  | .var hv | .update hv =>
    rw [checkExpr]
    exact bind_of_ok (variableOf_run hv _)
  | .binary hl hr hw ht =>
    rw [checkExpr]
    refine (bind_of_ok hl.check).trans ((bind_of_ok hr.check).trans ?_)
    rw [if_neg (by simpa [BinaryOp.widens] using hw)]
    refine (bind_of_ok (pure_eq_ok.mpr ⟨rfl, rfl⟩)).trans ?_
    exact bind_of_ok (binaryTypes_run ht _ _)
  | .widened hl hr hw ha ht =>
    rw [checkExpr]
    refine (bind_of_ok hl.check).trans ((bind_of_ok hr.check).trans ?_)
    rw [if_pos (by simpa [BinaryOp.widens] using hw)]
    exact (bind_of_ok ha.check).trans (bind_of_ok (binaryTypes_run ht _ _))
  | .unary h =>
    rw [checkExpr]
    exact bind_of_ok h.check
  | .assign h =>
    rw [checkExpr]
    exact bind_of_ok (h.check _ rfl)
  | @ExprRun.convert _ written _ _ _ _ typed s₁ h =>
    rw [checkExpr]
    refine (bind_of_ok h.check).trans ?_
    unfold Checker.noted
    cases written with
    | none => rfl
    | some declared =>
      change (if declared ≠ typed.type then _ else _ : Checking Typed.Expr) s₁ = .ok _ (if _ then _ else _)
      split <;> rfl
  | .call hs h hf hc hr =>
    rw [checkExpr]
    refine (bind_of_ok (callWith_run hs h.arity (h.check _) _)).trans ?_
    exact bind_of_ok (callResult_run hf hc hr _)
  | .pinningCall hs h hf hc =>
    rw [checkExpr]
    refine (bind_of_ok (callWith_run hs h.arity (h.check _) _)).trans ?_
    exact bind_of_ok (callResult_run_pinning hf hc _)

theorem AssignRun.check {name : String} {place : Position} {value : Expr} {s s' : Checker} {slot : String}
    {t : Typed.Expr} {type : NumType} (h : AssignRun name place value s slot t type s') (span : Span)
    (hplace : span.start = place) :
    assignTo (.var name span) (fun hint => checkExpr value hint) s = .ok (slot, t, type) s' := by
  match h with
  | .bound hvalue hv ht => exact assignTo_run_bound hvalue.check hv ht span
  | .fresh hvalue hv ha =>
    subst hplace
    exact assignTo_run_fresh hvalue.check hv ha span

theorem ArgumentsRun.check {es : List Expr} {types : List NumType} {s s' : Checker} {ts : List Typed.Expr}
    (h : ArgumentsRun es types s ts s') (callee : String) : checkArguments callee es types s = .ok ts s' := by
  match h with
  | .nil =>
    rw [checkArguments]
    · rfl
    · simp
  | .cons h hp hs =>
    rw [checkArguments]
    refine (bind_of_ok h.check).trans ?_
    rw [if_neg (by rw [NumType.assign?_fixed_isNone]; omega)]
    exact bind_of_ok (hs.check callee)

end

/-- Two runs over an expression from the same state agree. -/
theorem ExprRun.unique {e : Expr} {hint : Option NumType} {s s₁ s₂ : Checker} {t₁ t₂ : Typed.Expr}
    (h₁ : ExprRun e hint s t₁ s₁) (h₂ : ExprRun e hint s t₂ s₂) : t₁ = t₂ ∧ s₁ = s₂ := by
  cases h₁.check.symm.trans h₂.check
  exact ⟨rfl, rfl⟩

theorem ExprRun?.check {e : Option Expr} {s s' : Checker} {t : Option Typed.Expr} (h : ExprRun? e s t s') :
    checkOption (checkExpr · none) e s = .ok t s' := by
  cases h with
  | missing => rfl
  | present h => exact bind_of_ok h.check

theorem within_run {α : Type} {enter : Scope → Scope} {inner : Checking α} {s s' : Checker} {a : α}
    (h : inner (s.withScope (enter s.scope)) = .ok a s') :
    within enter inner s = .ok a (s'.withScope s.scope) := by
  have hinner : inner { s with scope := enter s.scope } = .ok a s' := h
  unfold within
  rw [hinner]
  rfl

theorem checkJump_run {s : Checker} (h : s.scope.inLoop = true) (construct : String) (span : Span) :
    checkJump construct span s = .ok () s := by
  refine (bind_of_ok (get_eq_ok.mpr ⟨rfl, rfl⟩)).trans ?_
  rw [h]
  rfl

theorem checkDeclare_run {name : String} {declared : Option NumType} {value : Expr} {s s₁ : Checker}
    {typed : Typed.Expr} (h : ExprRun value declared s typed s₁)
    (hf : ∀ type, declared = some type → typed.type.rank ≤ type.rank) (span : Span) :
    checkDeclare name declared (some value) span s =
      .ok (.declare (s₁.nextSlot name) (some typed) (declared.getD typed.type) span)
        (s₁.declared name (declared.getD typed.type) declared.isSome) := by
  have hvalue : checkOption (checkExpr · declared) (some value) s = .ok (some typed) s₁ := bind_of_ok h.check
  refine (bind_of_ok hvalue).trans ?_
  cases declared with
  | none => exact bind_of_ok (declareLocal_run _ _ _ _)
  | some type =>
    have hfits : ¬ (NumType.assign? type typed.type true).isNone = true := by
      rw [NumType.assign?_fixed_isNone]
      exact Nat.not_lt.mpr (hf type rfl)
    simp only [hfits]
    exact bind_of_ok (declareLocal_run _ _ _ _)

section Returns

variable {s s₁ : Checker} {f : String} {signature : Signature} {value : Expr} {typed : Typed.Expr}

theorem checkReturn_run_bare (hf : s.scope.function = some f) (hs : s.signatures.find? f = some signature)
    (hr : signature.result = none) (span : Span) :
    checkReturn none span s = .ok (.returnValue none span) { s with bareReturn := true } := by
  refine (bind_of_ok (get_eq_ok.mpr ⟨rfl, rfl⟩)).trans ?_
  rw [hf]
  refine (bind_of_ok (signatureOf_run hs span)).trans ?_
  simp only [hr]
  rfl

theorem checkReturn_run_fixed (hf : s.scope.function = some f) (hs : s.signatures.find? f = some signature)
    (h : ExprRun value signature.result s typed s₁) (hb : s₁.bareReturn = false)
    (hx : signature.resultFixed = true) (ht : typed.type.rank ≤ (signature.result.getD .i32).rank)
    (span : Span) :
    checkReturn (some value) span s =
      .ok (.returnValue (some typed) span) { s₁ with valuedReturn := true } := by
  refine (bind_of_ok (get_eq_ok.mpr ⟨rfl, rfl⟩)).trans ?_
  rw [hf]
  refine (bind_of_ok (signatureOf_run hs span)).trans ((bind_of_ok h.check).trans ?_)
  refine (bind_of_ok (get_eq_ok.mpr ⟨rfl, rfl⟩)).trans ?_
  have hfits : ¬ (NumType.assign? (signature.result.getD .i32) typed.type true).isNone = true := by
    rw [NumType.assign?_fixed_isNone]
    omega
  rw [if_neg (by simp [hb])]
  refine (bind_of_ok (a := ⟨⟩) (modify_eq_ok.mpr rfl)).trans ?_
  rw [if_pos hx]
  simp only [hfits]
  rfl

theorem checkReturn_run_inferred {current : Signature} (hf : s.scope.function = some f)
    (hs : s.signatures.find? f = some signature) (h : ExprRun value signature.result s typed s₁)
    (hb : s₁.bareReturn = false) (hx : signature.resultFixed = false)
    (hc : s₁.signatures.find? f = some current) (span : Span) :
    checkReturn (some value) span s = .ok (.returnValue (some typed) span)
      { s₁.withSignature f { current with
        result := some (NumType.joinKnown signature.result (some typed.type)) } with
        valuedReturn := true } := by
  refine (bind_of_ok (get_eq_ok.mpr ⟨rfl, rfl⟩)).trans ?_
  rw [hf]
  refine (bind_of_ok (signatureOf_run hs span)).trans ((bind_of_ok h.check).trans ?_)
  refine (bind_of_ok (get_eq_ok.mpr ⟨rfl, rfl⟩)).trans ?_
  rw [if_neg (by simp [hb])]
  refine (bind_of_ok (a := ⟨⟩) (modify_eq_ok.mpr rfl)).trans ?_
  rw [if_neg (by simp [hx])]
  refine (bind_of_ok (get_eq_ok.mpr ⟨rfl, rfl⟩)).trans ?_
  simp only [hc]
  rfl

end Returns

theorem checkExprStmt_eq (e : Expr) : checkExprStmt e = checkStmt (.ofExpr e) := by
  cases e with
  | assign | call | literal | var | binary | unary | update | convert =>
    simp only [Stmt.ofExpr, checkStmt]
    rfl

/-- The step of a loop is checked as the statement that it makes. -/
theorem checkOption_checkExprStmt (step : Option Expr) :
    checkOption checkExprStmt step = checkStmt? (step.map Stmt.ofExpr) := by
  cases step with
  | none =>
    rw [Option.map_none, checkStmt?]
    rfl
  | some e =>
    rw [Option.map_some, checkStmt?, ← checkExprStmt_eq]
    rfl

mutual

theorem StmtRun.check {stmt : Stmt} {s s' : Checker} {t : Typed.Stmt} (h : StmtRun stmt s t s') :
    checkStmt stmt s = .ok t s' := by
  match h with
  | @StmtRun.declare _ declared _ _ =>
    rw [checkStmt]
    cases declared <;> exact bind_of_ok (declareLocal_run _ _ _ _)
  | .declareValue h hf =>
    rw [checkStmt]
    exact checkDeclare_run h hf _
  | .assign h =>
    rw [checkStmt]
    exact bind_of_ok (h.check _ rfl)
  | .branch hc hy hn =>
    rw [checkStmt]
    refine (bind_of_ok hc.check).trans ((bind_of_ok (within_run hy.check)).trans ?_)
    exact bind_of_ok (within_run hn.check)
  | .whileLoop hc hb =>
    rw [checkStmt]
    refine (bind_of_ok hc.check).trans ?_
    exact bind_of_ok (within_run hb.check)
  | .forLoop hs hc hb hp =>
    rw [checkStmt]
    refine within_run ?_
    refine (bind_of_ok hs.check).trans ((bind_of_ok hc.check).trans ?_)
    refine (bind_of_ok (within_run hb.check)).trans ?_
    rw [checkOption_checkExprStmt]
    exact bind_of_ok hp.check
  | .breakLoop hl =>
    rw [checkStmt]
    exact bind_of_ok (checkJump_run hl _ _)
  | .continueLoop hl =>
    rw [checkStmt]
    exact bind_of_ok (checkJump_run hl _ _)
  | .returnBare hf hs hr =>
    rw [checkStmt]
    exact checkReturn_run_bare hf hs hr _
  | .returnFixed hf hs h hb hx ht =>
    rw [checkStmt]
    exact checkReturn_run_fixed hf hs h hb hx ht _
  | .returnInferred hf hs h hb hx hc =>
    rw [checkStmt]
    exact checkReturn_run_inferred hf hs h hb hx hc _
  | .print h =>
    rw [checkStmt]
    exact bind_of_ok h.check
  | .block h =>
    rw [checkStmt]
    exact bind_of_ok (within_run h.check)
  | .expression h =>
    rw [checkStmt]
    exact bind_of_ok h.check
  | .call hs h =>
    rw [checkStmt]
    exact bind_of_ok (callWith_run hs h.arity (h.check _) _)

theorem StmtRun?.check {stmt : Option Stmt} {s s' : Checker} {t : Option Typed.Stmt}
    (h : StmtRun? stmt s t s') : checkStmt? stmt s = .ok t s' := by
  match h with
  | .missing =>
    rw [checkStmt?]
    rfl
  | .present h =>
    rw [checkStmt?]
    exact bind_of_ok h.check

theorem StmtsRun.check {stmts : List Stmt} {s s' : Checker} {ts : List Typed.Stmt}
    (h : StmtsRun stmts s ts s') : checkStmts stmts s = .ok ts s' := by
  match h with
  | .nil =>
    rw [checkStmts]
    rfl
  | .cons h hs =>
    rw [checkStmts]
    exact (bind_of_ok h.check).trans (bind_of_ok hs.check)

end

theorem PassRun.pass {scope : Scope} {readTypes : Table NumType} {parameters : List Typed.Parameter}
    {body : List Stmt} {s s' : Checker} {typed : List Typed.Stmt}
    (h : PassRun scope parameters body readTypes s typed s') :
    Checking.pass scope readTypes parameters body s = .ok typed s' := by
  obtain ⟨h⟩ := h
  refine (bind_of_ok (a := ⟨⟩) (modify_eq_ok.mpr rfl)).trans (within_run ?_)
  exact (bind_of_ok (declareParameters_run _ _)).trans h.check

end Numlet
