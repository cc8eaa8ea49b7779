import Numlet.Proofs.Code.Lowered

/-!
Lowering of sound statements. A statement writes its code between the loops around it and counts the
loops in it, so that the label of a loop is known from where the loop stands.
-/
namespace Numlet

/-- The function of the host that a statement calls by itself. -/
def Typed.Stmt.host? : Typed.Stmt → Option Host
  | .print value _ => Host.find? (Host.print value.type).name
  | .call callee _ _ _ => Host.find? callee
  | _ => none

def Typed.stmtHosts (parts : List Typed.Stmt) : List Host := parts.filterMap Typed.Stmt.host?

@[simp] theorem Typed.stmtHosts_append (xs ys : List Typed.Stmt) :
    Typed.stmtHosts (xs ++ ys) = Typed.stmtHosts xs ++ Typed.stmtHosts ys :=
  List.filterMap_append

@[simp] theorem Typed.stmtHosts_singleton (x : Typed.Stmt) :
    Typed.stmtHosts [x] = x.host?.toList := by
  cases h : x.host? <;> simp [Typed.stmtHosts, h]

/-- A lowering that stands before a statement of a body, inside the loop `inner` if there is one. -/
structure Emitter.Before (s : Emitter) (c : Typed.Context) (inLoop : Bool) (inner next : Nat) :
    Prop where
  ready : s.Ready c
  loops : inLoop = true → s.loops.head? = some inner
  nextLabel : s.nextLabel = next

theorem Emitter.Before.of_writes {s s' : Emitter} {c : Typed.Context} {inLoop : Bool} {inner next : Nat}
    {code : List Instr} {opened : Nat} {called : List Host} (h : s.Before c inLoop inner next)
    (hw : s.Writes code opened called s') : s'.Before c inLoop inner (next + opened) where
  ready := h.ready.of_writes hw
  loops hin := by
    rw [hw.loops]
    exact h.loops hin
  nextLabel := by rw [hw.nextLabel, h.nextLabel]

/-- Inside a loop that has just got its label. -/
theorem Emitter.Before.enter {s : Emitter} {c : Typed.Context} {inLoop : Bool} {inner next : Nat}
    (h : s.Before c inLoop inner next) (label : Nat) :
    Emitter.Before { s with loops := label :: s.loops } c true label next where
  ready := ⟨h.ready.slotType, h.ready.results, h.ready.result⟩
  loops _ := rfl
  nextLabel := h.nextLabel

namespace Lowering
open Coercion (firstRefusal)
open Typed (hosts stmtHosts)

variable {c : Typed.Context} {s : Emitter}

/-- A store after a look at the slot. -/
theorem touched_store_does {x : String} {τ : NumType} (h : s.slotType x = some τ) (t fallback : NumType)
    (span : Span) :
    Does (slotFor x fallback >>= fun _ => discard (store x t span)) s
      (Coercion.implicit t τ span).refusal? (Node.flatten (coerceNodes t τ) ++ [.setLocal x]) 0 [] := by
  obtain ⟨slot, log, hslot, rfl⟩ := slotFor_run h fallback
  have htype : Emitter.slotType
      { s with slots := s.slots.touch s.storage (.getLocal x), log := log } x = some slot.type :=
    Emitter.slotType_touch h (.getLocal x)
  exact Does.of_touched (bind_of_ok hslot) (store_does htype t span).discard

theorem inLoop_run (label : Nat) (m : Lowering Unit) (s : Emitter) :
    inLoop label m s =
      match m { s with loops := label :: s.loops } with
      | .ok a s' => .ok a { s' with loops := s.loops }
      | .error d s' => .error d { s' with loops := s.loops } := rfl

theorem inLoop_does {m : Lowering Unit} {label : Nat} {r : Option Diagnostic} {code : List Instr}
    {opened : Nat} {called : List Host}
    (h : Does m { s with loops := label :: s.loops } r code opened called) :
    Does (inLoop label m) s r code opened called := by
  cases r with
  | some d =>
    obtain ⟨s₁, hm⟩ := h
    exact ⟨{ s₁ with loops := s.loops }, by rw [inLoop_run, hm]⟩
  | none =>
    obtain ⟨a, s₁, hm, hw⟩ := h
    exact ⟨a, { s₁ with loops := s.loops }, by rw [inLoop_run, hm], hw.program, hw.storage, hw.result, rfl, hw.output,
      hw.nextLabel, hw.slots, hw.hosts⟩

theorem newLabel_run {next : Nat} (h : s.nextLabel = next) :
    newLabel s = .ok next { s with nextLabel := s.nextLabel + 1 } := by
  rw [← h]
  rfl

theorem newLabel_writes (s : Emitter) :
    s.Writes [] 1 [] { s with nextLabel := s.nextLabel + 1 } :=
  ⟨rfl, rfl, rfl, rfl, (List.append_nil _).symm, rfl, rfl, fun _ => by simp⟩

theorem innermost_run {label : Nat} (h : s.loops.head? = some label) (construct : String)
    (span : Span) : innermost construct span s = .ok label s := by
  unfold innermost
  cases hl : s.loops with
  | nil =>
    rw [hl] at h
    cases h
  | cons first rest =>
    rw [hl] at h
    cases h
    rw [bind_of_ok (get_eq_ok.mpr ⟨rfl, rfl⟩), hl]
    rfl

theorem lowerCondition_does {e : Typed.Expr} (he : c.Sound e) (hs : s.Ready c) :
    Does (lowerCondition e) s (firstRefusal (c.coercions e))
      (Node.flatten (c.exprNodes e ++ conditionNodes e.type)) 0 (hosts e.parts) :=
  ((lowerExpr_does e he hs).bind fun _ s₁ _ => asCondition_does s₁ e.type).congr
    (by simp) (by simp) rfl (by simp)

theorem lowerTest_does {e : Option Typed.Expr} (he : ∀ x ∈ Typed.partsOfExpr? e, c.ExprOk x)
    (hs : s.Ready c) (label : Nat) :
    Does (lowerTest label e) s (firstRefusal (c.coercions? e))
      (Node.flatten (c.testNodes label e)) 0 (hosts (Typed.partsOfExpr? e)) := by
  cases e with
  | none => exact .of_pure () s
  | some e =>
    refine ((lowerCondition_does he hs).bind fun _ s₁ _ =>
      Does.bind (emit_does rfl) fun _ s₂ _ => emit_does rfl).congr ?_ ?_ rfl ?_
    · simp [Typed.Context.coercions?]
    · simp [Typed.Context.testNodes, Node.flat]
    · simp [Typed.partsOfExpr?]

theorem lowerDeclare_does {x : String} {e : Option Typed.Expr} {t : NumType} {span : Span}
    (he : ∀ y ∈ Typed.partsOfExpr? e, c.ExprOk y) (hok : c.StmtOk (.declare x e t span))
    (hs : s.Ready c) :
    Does (lowerDeclare x e t span) s (firstRefusal (c.stmtCoercions (.declare x e t span)))
      (Node.flatten (c.declareNodes x t e)) 0 (hosts (Typed.partsOfExpr? e)) := by
  obtain ⟨⟨τ, hx, -⟩, -⟩ := hok
  cases e with
  | none =>
    refine (Does.bind (emit_does rfl) fun _ s₁ h₁ =>
      (store_does (h₁.slotType (hs.slotType x τ hx)) t span).discard).congr ?_ ?_ rfl ?_
    · simp [Typed.Context.stmtCoercions]
    · simp [Typed.Context.declareNodes, Typed.Context.storeNodes, Node.flat, Instr.whole]
    · simp [Typed.partsOfExpr?, hosts]
  | some e =>
    refine ((lowerExpr_does e he hs).bind fun _ s₁ h₁ =>
      touched_store_does (h₁.slotType (hs.slotType x τ hx)) e.type t span).congr ?_ ?_ rfl ?_
    · simp [Typed.Context.stmtCoercions]
    · simp [Typed.Context.declareNodes, Typed.Context.storeNodes, Node.flat]
    · simp [Typed.partsOfExpr?]

theorem lowerReturn_does {e : Option Typed.Expr} {span : Span}
    (he : ∀ y ∈ Typed.partsOfExpr? e, c.ExprOk y) (hok : c.StmtOk (.returnValue e span))
    (hs : s.Ready c) :
    Does (lowerReturn e span) s (firstRefusal (c.stmtCoercions (.returnValue e span)))
      (Node.flatten (c.returnNodes e)) 0 (hosts (Typed.partsOfExpr? e)) := by
  cases e with
  | none => exact emit_does rfl
  | some e =>
    obtain ⟨r, hr, -⟩ := hok
    refine ((lowerExpr_does e he hs).bind fun _ s₁ h₁ =>
      Does.start (bind_of_ok (get_eq_ok.mpr ⟨rfl, rfl⟩)) (.refl s₁)
        (?_ : Does _ s₁ (Coercion.implicit e.type r span).refusal?
          (Node.flatten (coerceNodes e.type r) ++ [.ret]) 0 [])).congr ?_ ?_ rfl ?_
    · rw [(hs.of_writes h₁).result, hr]
      exact ((coerce_does s₁ (.implicit e.type r span)).bind fun _ s₂ _ => emit_does rfl).congr
        (by simp) rfl rfl (by simp)
    · simp [Typed.Context.stmtCoercions, hr]
    · simp [Typed.Context.returnNodes, hr, Node.flat]
    · simp [Typed.partsOfExpr?]

mutual

/-- A sound statement is lowered to its code. -/
theorem lowerStmt_does (stmt : Typed.Stmt) {c : Typed.Context} {s : Emitter} {inLoop : Bool}
    {inner next : Nat} (h : c.SoundStmt inLoop stmt) (hs : s.Before c inLoop inner next) :
    Does (lowerStmt stmt) s (firstRefusal (c.stmtCoercions stmt))
      (Node.flatten (c.stmtNodes inner next stmt)) stmt.loopCount
      (hosts stmt.exprs ++ stmtHosts stmt.parts) := by
  match stmt with
  | .declare x value t span =>
    rw [lowerStmt]
    refine (lowerDeclare_does h.exprs h.self hs.ready).congr rfl ?_ rfl ?_
    · simp [Typed.Context.stmtNodes]
    · simp [Typed.Stmt.exprs, Typed.Stmt.parts, Typed.Stmt.host?]
  | .assign x value span =>
    obtain ⟨τ, hx, -⟩ := h.self
    rw [lowerStmt]
    refine ((lowerExpr_does value h.exprs hs.ready).bind fun _ s₁ h₁ =>
      (store_does (h₁.slotType (hs.ready.slotType x τ hx)) value.type span).discard).congr ?_ ?_ rfl ?_
    · simp [Typed.Context.stmtCoercions]
    · simp [Typed.Context.stmtNodes, Typed.Context.storeNodes, Node.flat]
    · simp [Typed.Stmt.exprs, Typed.Stmt.parts, Typed.Stmt.host?]
  | .branch condition yes no span =>
    obtain ⟨he, hyes, hno⟩ := h.branch
    rw [lowerStmt]
    refine ((lowerCondition_does he hs.ready).bind fun _ s₁ h₁ =>
      Does.bind (emit_does rfl) fun _ s₂ h₂ =>
      (lowerStmt_does yes hyes ((hs.of_writes h₁).of_writes h₂)).bind fun _ s₃ h₃ =>
      (lowerElse_does no hno (((hs.of_writes h₁).of_writes h₂).of_writes h₃)).bind fun _ s₄ _ =>
      emit_does rfl).congr ?_ ?_ ?_ ?_
    · simp [Typed.Context.stmtCoercions]
    · simp [Typed.Context.stmtNodes, Node.flat, Node.opening]
    · simp [Typed.Stmt.loopCount]
    · simp [Typed.Stmt.exprs, Typed.Stmt.parts, Typed.Stmt.host?]
      grind
  | .loop start condition body step span =>
    obtain ⟨hstart, hcond, hbody, hstep⟩ := h.loop
    rw [lowerStmt]
    refine ((lowerStmt?_does start hstart hs).bind fun _ s₁ h₁ =>
      have hs₁ := hs.of_writes h₁
      have hs₂ := hs₁.of_writes (newLabel_writes s₁)
      Does.start (bind_of_ok (newLabel_run hs₁.nextLabel)) (newLabel_writes s₁) <|
      Does.bind (emit_does rfl) fun _ s₃ h₃ => Does.bind (emit_does rfl) fun _ s₄ h₄ =>
      have hs₄ := (hs₂.of_writes h₃).of_writes h₄
      (lowerTest_does hcond hs₄.ready _).bind fun _ s₅ h₅ =>
      have hs₅ := hs₄.of_writes h₅
      (inLoop_does (Does.bind (emit_does rfl) fun _ s₆ h₆ =>
        lowerStmt_does body hbody ((hs₅.enter _).of_writes h₆))).bind fun _ s₇ h₇ =>
      Does.bind (emit_does rfl) fun _ s₈ h₈ =>
      (lowerStmt?_does step hstep ((hs₅.of_writes h₇).of_writes h₈)).bind fun _ s₉ _ =>
      Does.bind (emit_does rfl) fun _ _ _ => Does.bind (emit_does rfl) fun _ _ _ =>
      emit_does rfl).congr ?_ ?_ ?_ ?_
    · simp [Typed.Context.stmtCoercions]
    · simp [Typed.Context.stmtNodes, Node.flat]
    · simp [Typed.Stmt.loopCount]
      omega
    · simp [Typed.Stmt.exprs, Typed.Stmt.parts, Typed.Stmt.host?]
      grind
  | .breakLoop span =>
    rw [lowerStmt]
    refine (Does.start (bind_of_ok (innermost_run (hs.loops h.jumps) "break" span)) (.refl s) (emit_does rfl)).congr
      rfl ?_ rfl ?_
    · simp [Typed.Context.stmtNodes, Node.flat]
    · simp [Typed.Stmt.exprs, Typed.Stmt.parts, Typed.Stmt.host?, hosts]
  | .continueLoop span =>
    rw [lowerStmt]
    refine (Does.start (bind_of_ok (innermost_run (hs.loops h.jumps) "continue" span)) (.refl s) (emit_does rfl)).congr
      rfl ?_ rfl ?_
    · simp [Typed.Context.stmtNodes, Node.flat]
    · simp [Typed.Stmt.exprs, Typed.Stmt.parts, Typed.Stmt.host?, hosts]
  | .returnValue value span =>
    rw [lowerStmt]
    refine (lowerReturn_does h.exprs h.self hs.ready).congr rfl ?_ rfl ?_
    · simp [Typed.Context.stmtNodes]
    · simp [Typed.Stmt.exprs, Typed.Stmt.parts, Typed.Stmt.host?]
  | .print value span =>
    rw [lowerStmt]
    refine ((lowerExpr_does value h.exprs hs.ready).bind fun _ s₁ _ => call_does s₁ _).congr ?_ ?_ rfl ?_
    · simp [Typed.Context.stmtCoercions]
    · simp [Typed.Context.stmtNodes]
    · simp [Typed.Stmt.exprs, Typed.Stmt.parts, Typed.Stmt.host?]
  | .block body span =>
    rw [lowerStmt]
    refine (lowerStmts_does body h.block hs).congr rfl ?_ rfl ?_
    · simp [Typed.Context.stmtNodes]
    · simp [Typed.Stmt.exprs, Typed.Stmt.parts, Typed.Stmt.host?]
  | .expression value =>
    rw [lowerStmt]
    refine ((lowerExpr_does value h.exprs hs.ready).bind fun _ s₁ _ => emit_does rfl).congr ?_ ?_ rfl ?_
    · simp [Typed.Context.stmtCoercions]
    · simp [Typed.Context.stmtNodes, Node.flat]
    · simp [Typed.Stmt.exprs, Typed.Stmt.parts, Typed.Stmt.host?]
  | .call callee arguments types span =>
    obtain ⟨⟨r, hr⟩, hfits⟩ := h.self
    rw [lowerStmt]
    have hdrop : ∀ s : Emitter, Does (if r.isSome then emit .drop else pure ()) s none
        (Node.flatten (if r.isSome then [.plain .drop rfl] else [])) 0 [] := by
      intro s
      split
      · exact emit_does rfl
      · exact .of_pure () s
    refine (Does.start (bind_of_ok (hs.ready.functionResult hr span)) (.refl s)
      (((lowerArguments_does arguments types h.exprs hfits hs.ready).bind fun _ s₁ _ =>
        call_does s₁ callee).bind fun _ s₂ _ => hdrop s₂)).congr ?_ ?_ rfl ?_
    · simp [Typed.Context.stmtCoercions]
    · simp [Typed.Context.stmtNodes, Typed.Context.resultOf, hr]
    · simp [Typed.Stmt.exprs, Typed.Stmt.parts, Typed.Stmt.host?]

theorem lowerStmt?_does (stmt : Option Typed.Stmt) {c : Typed.Context} {s : Emitter} {inLoop : Bool}
    {inner next : Nat} (h : c.SoundStmt? inLoop stmt) (hs : s.Before c inLoop inner next) :
    Does (lowerStmt? stmt) s (firstRefusal (c.stmtCoercions? stmt))
      (Node.flatten (c.stmtNodes? inner next stmt)) (Typed.loopCount? stmt)
      (hosts (Typed.exprsOfStmt? stmt) ++ stmtHosts (Typed.partsOfStmt? stmt)) := by
  match stmt with
  | none =>
    rw [lowerStmt?]
    exact .of_pure () s
  | some stmt =>
    rw [lowerStmt?]
    refine (lowerStmt_does stmt h.some hs).congr rfl ?_ rfl ?_
    · simp [Typed.Context.stmtNodes?]
    · simp [Typed.exprsOfStmt?, Typed.partsOfStmt?]

theorem lowerElse_does (stmt : Option Typed.Stmt) {c : Typed.Context} {s : Emitter} {inLoop : Bool}
    {inner next : Nat} (h : c.SoundStmt? inLoop stmt) (hs : s.Before c inLoop inner next) :
    Does (lowerElse stmt) s (firstRefusal (c.stmtCoercions? stmt))
      (Node.flattenElse (c.elseNodes inner next stmt)) (Typed.loopCount? stmt)
      (hosts (Typed.exprsOfStmt? stmt) ++ stmtHosts (Typed.partsOfStmt? stmt)) := by
  match stmt with
  | none =>
    rw [lowerElse]
    exact .of_pure () s
  | some stmt =>
    rw [lowerElse]
    by_cases hempty : stmt.isEmptyBlock = true
    · obtain ⟨span, rfl⟩ := Typed.Stmt.isEmptyBlock_iff.mp hempty
      rw [if_pos hempty]
      exact .of_pure () s
    · rw [if_neg hempty]
      refine (Does.bind (emit_does rfl) fun _ s₁ h₁ =>
        lowerStmt_does stmt h.some (hs.of_writes h₁)).congr ?_ ?_ ?_ ?_
      · simp [Typed.Context.stmtCoercions?]
      · simp [Typed.Context.elseNodes, hempty, Node.flattenElse]
      · simp [Typed.loopCount?]
      · simp [Typed.exprsOfStmt?, Typed.partsOfStmt?]

theorem lowerStmts_does (stmts : List Typed.Stmt) {c : Typed.Context} {s : Emitter} {inLoop : Bool}
    {inner next : Nat} (h : c.SoundStmts inLoop stmts) (hs : s.Before c inLoop inner next) :
    Does (lowerStmts stmts) s (firstRefusal (c.stmtsCoercions stmts))
      (Node.flatten (c.stmtsNodes inner next stmts)) (Typed.loopCountAll stmts)
      (hosts (Typed.exprsOfStmts stmts) ++ stmtHosts (Typed.partsOfStmts stmts)) := by
  match stmts with
  | [] =>
    rw [lowerStmts]
    exact .of_pure () s
  | stmt :: stmts =>
    obtain ⟨hfirst, hrest⟩ := h.cons
    rw [lowerStmts]
    refine ((lowerStmt_does stmt hfirst hs).bind fun _ s₁ h₁ =>
      lowerStmts_does stmts hrest (hs.of_writes h₁)).congr ?_ ?_ rfl ?_
    · simp [Typed.Context.stmtsCoercions]
    · simp [Typed.Context.stmtsNodes]
    · simp [Typed.exprsOfStmts, Typed.partsOfStmts]
      grind

end

end Lowering

end Numlet
