import Numlet.Code.Module
import Numlet.Proofs.Alike
import Numlet.Proofs.Typed.Relocated

/-!
Two lowerings of one tree, that stands elsewhere in the second, write the same code.
-/
namespace Numlet

/-- States of two lowerings that differ only in places. -/
structure Emitter.Coupled (φ : Span → Span) (s t : Emitter) : Prop where
  program : t.program = s.program.relocated φ
  usedHosts : t.usedHosts = s.usedHosts
  output : t.output = s.output
  slots : t.slots = s.slots
  storage : t.storage = s.storage
  result : t.result = s.result
  loops : t.loops = s.loops
  nextLabel : t.nextLabel = s.nextLabel

namespace Lowering

variable {φ : Span → Span}

section Steps

theorem report_alike (event event' : Event) :
    RunsAlike (Emitter.Coupled φ) (fun _ _ => True) (report event) (report event') :=
  .modify fun _ _ h => ⟨h.program, h.usedHosts, h.output, h.slots, h.storage, h.result, h.loops,
    h.nextLabel⟩

theorem emit_alike (i : Instr) :
    RunsAlike (Emitter.Coupled φ) (fun _ _ => True) (emit i) (emit i) := by
  refine .modify fun s t h => ?_
  rw [h.output]
  exact ⟨h.program, h.usedHosts, rfl, h.slots, h.storage, h.result, h.loops, h.nextLabel⟩

theorem coerce_alike (source target : NumType) (span span' : Span) :
    RunsAlike (Emitter.Coupled φ) (fun _ _ => True) (coerce source target span)
      (coerce source target span') := by
  unfold coerce Conversion.plan
  by_cases hsame : source = target
  · rw [if_pos hsame, if_pos hsame]
    exact .pure trivial
  · rw [if_neg hsame, if_neg hsame]
    cases Conversion.between? source target with
    | none => exact .throw rfl
    | some c => exact emit_alike _

theorem changeSlots_alike (name : String) (change : Slots → Slot × Slots) :
    RunsAlike (Emitter.Coupled φ) (fun a b => b = a) (changeSlots name change)
      (changeSlots name change) := by
  unfold changeSlots
  refine .bind .get fun s t hst => ?_
  rw [hst.slots]
  have hend : RunsAlike (Emitter.Coupled φ) (fun a b => b = a)
      (do
        modify fun s' => { s' with slots := (change s.slots).2 }
        return (change s.slots).1)
      (do
        modify fun s' => { s' with slots := (change s.slots).2 }
        return (change s.slots).1) := by
    refine .bind (P := fun _ _ => True) ?_ fun _ _ _ => .pure rfl
    exact .modify fun _ _ h => ⟨h.program, h.usedHosts, h.output, rfl, h.storage, h.result, h.loops,
      h.nextLabel⟩
  exact .ite Iff.rfl (.bind (report_alike _ _) fun _ _ _ => hend) hend

theorem slotFor_alike (name : String) (fallback : NumType) :
    RunsAlike (Emitter.Coupled φ) (fun a b => b = a) (slotFor name fallback)
      (slotFor name fallback) := by
  unfold slotFor
  refine .bind .get fun s t hst => ?_
  rw [hst.storage]
  exact changeSlots_alike name _

theorem store_alike (name : String) (type : NumType) (span span' : Span) :
    RunsAlike (Emitter.Coupled φ) (fun _ _ => True) (store name type span)
      (store name type span') := by
  unfold store
  refine .bind (slotFor_alike name type) ?_
  rintro _ slot rfl
  exact .bind (coerce_alike _ _ _ _) fun _ _ _ => .bind (emit_alike _) fun _ _ _ => .pure trivial

theorem load_alike (name : String) (type : NumType) (span span' : Span) :
    RunsAlike (Emitter.Coupled φ) (fun _ _ => True) (load name type span)
      (load name type span') := by
  unfold load
  refine .bind (slotFor_alike name type) ?_
  rintro _ slot rfl
  exact .bind (emit_alike _) fun _ _ _ => .bind (coerce_alike _ _ _ _) fun _ _ _ => .pure trivial

theorem newLabel_alike :
    RunsAlike (Emitter.Coupled φ) (fun a b => b = a) newLabel newLabel := by
  intro s t h
  refine ⟨h.nextLabel, h.program, h.usedHosts, h.output, h.slots, h.storage, h.result, h.loops, ?_⟩
  exact congrArg (· + 1) h.nextLabel

theorem call_alike (callee : String) :
    RunsAlike (Emitter.Coupled φ) (fun _ _ => True) (call callee) (call callee) := by
  unfold call
  cases Host.find? callee with
  | none => exact emit_alike _
  | some host =>
    refine .bind (P := fun _ _ => True) (.modify fun s t h => ?_) fun _ _ _ => emit_alike _
    rw [h.usedHosts]
    exact ⟨h.program, rfl, h.output, h.slots, h.storage, h.result, h.loops, h.nextLabel⟩

theorem functionResult_alike (callee : String) (span span' : Span) :
    RunsAlike (Emitter.Coupled φ) (fun a b => b = a) (functionResult callee span)
      (functionResult callee span') := by
  unfold functionResult
  cases Host.find? callee with
  | some host => exact .pure rfl
  | none =>
    refine .bind .get fun s t hst => ?_
    rw [hst.program, Typed.Program.find?_relocated]
    cases s.program.find? callee with
    | none => exact .throw rfl
    | some f => exact .pure rfl

theorem innermost_alike (construct : String) (span span' : Span) :
    RunsAlike (Emitter.Coupled φ) (fun a b => b = a) (innermost construct span)
      (innermost construct span') := by
  unfold innermost
  refine .bind .get fun s t hst => ?_
  rw [hst.loops]
  cases s.loops with
  | nil => exact .throw rfl
  | cons label _ => exact .pure rfl

theorem inLoop_alike (label : Nat) {m n : Lowering Unit}
    (h : RunsAlike (Emitter.Coupled φ) (fun _ _ => True) m n) :
    RunsAlike (Emitter.Coupled φ) (fun _ _ => True) (inLoop label m) (inLoop label n) := by
  intro s t hst
  have hin : Emitter.Coupled φ { s with loops := label :: s.loops }
      { t with loops := label :: t.loops } :=
    ⟨hst.program, hst.usedHosts, hst.output, hst.slots, hst.storage, hst.result,
      congrArg (label :: ·) hst.loops, hst.nextLabel⟩
  have hout : ∀ s' t' : Emitter, s'.Coupled φ t' →
      Emitter.Coupled φ { s' with loops := s.loops } { t' with loops := t.loops } :=
    fun _ _ h => ⟨h.program, h.usedHosts, h.output, h.slots, h.storage, h.result, hst.loops,
      h.nextLabel⟩
  unfold inLoop
  obtain ⟨a, s', b, t', hm, hn, hQ, hs'⟩ | ⟨d, s', e, t', hm, hn, hfault, hs'⟩ := (h _ _ hin).cases
  · rw [hm, hn]
    exact ⟨hQ, hout s' t' hs'⟩
  · rw [hm, hn]
    exact ⟨hfault, hout s' t' hs'⟩

end Steps

section Trees

theorem truth_alike (type : NumType) :
    RunsAlike (Emitter.Coupled φ) (fun _ _ => True) (truth type) (truth type) :=
  .bind (emit_alike _) fun _ _ _ => emit_alike _

theorem asCondition_alike (type : NumType) :
    RunsAlike (Emitter.Coupled φ) (fun _ _ => True) (asCondition type) (asCondition type) :=
  .ite Iff.rfl (truth_alike type) (.pure trivial)

theorem applyUnary_alike (op : UnaryOp) (type : NumType) :
    RunsAlike (Emitter.Coupled φ) (fun _ _ => True) (applyUnary op type) (applyUnary op type) := by
  cases op with
  | plus => exact .pure trivial
  | negate => exact .bind (emit_alike _) fun _ _ _ => emit_alike _
  | not => exact .ite Iff.rfl (emit_alike _) (.bind (emit_alike _) fun _ _ _ => emit_alike _)

theorem step_alike (op : UpdateOp) (slot : String) (type : NumType) (span span' : Span) :
    RunsAlike (Emitter.Coupled φ) (fun _ _ => True) (step op slot type span)
      (step op slot type span') := by
  unfold step
  refine .bind (load_alike _ _ _ _) fun _ _ _ => .bind (load_alike _ _ _ _) fun _ _ _ => ?_
  refine .bind (emit_alike _) fun _ _ _ => .bind (emit_alike _) fun _ _ _ => ?_
  exact .bind (store_alike _ _ _ _) fun _ _ _ => .pure trivial

mutual

theorem lowerExpr_alike (e : Typed.Expr) :
    RunsAlike (Emitter.Coupled φ) (fun _ _ => True) (lowerExpr e) (lowerExpr (e.relocated φ)) := by
  match e with
  | .literal value type span => exact emit_alike _
  | .var slot type span => exact .map (load_alike _ _ _ _) fun _ _ _ => trivial
  | .binary op left right operandType type span =>
    by_cases hand : op = .and
    · subst hand
      simp only [Typed.Expr.relocated, lowerExpr, Typed.Expr.type_relocated]
      refine .bind (lowerExpr_alike left) fun _ _ _ => .bind (asCondition_alike _) fun _ _ _ => ?_
      refine .bind (emit_alike _) fun _ _ _ => .bind (lowerExpr_alike right) fun _ _ _ => ?_
      refine .bind (truth_alike _) fun _ _ _ => .bind (emit_alike _) fun _ _ _ => ?_
      exact .bind (emit_alike _) fun _ _ _ => emit_alike _
    by_cases hor : op = .or
    · subst hor
      simp only [Typed.Expr.relocated, lowerExpr, Typed.Expr.type_relocated]
      refine .bind (lowerExpr_alike left) fun _ _ _ => .bind (asCondition_alike _) fun _ _ _ => ?_
      refine .bind (emit_alike _) fun _ _ _ => .bind (emit_alike _) fun _ _ _ => ?_
      refine .bind (emit_alike _) fun _ _ _ => .bind (lowerExpr_alike right) fun _ _ _ => ?_
      exact .bind (truth_alike _) fun _ _ _ => emit_alike _
    simp only [Typed.Expr.relocated, lowerExpr, Typed.Expr.type_relocated]
    refine .bind (lowerExpr_alike left) fun _ _ _ => .bind (coerce_alike _ _ _ _) fun _ _ _ => ?_
    refine .bind (lowerExpr_alike right) fun _ _ _ => .bind (coerce_alike _ _ _ _) fun _ _ _ => ?_
    cases NumericOp.ofBinary? op operandType with
    | some numeric => exact emit_alike _
    | none => exact .throw rfl
  | .unary op operand type span =>
    simp only [Typed.Expr.relocated, lowerExpr, Typed.Expr.type_relocated]
    exact .bind (lowerExpr_alike operand) fun _ _ _ => applyUnary_alike _ _
  | .update op slot type span => exact step_alike _ _ _ _ _
  | .assign slot value type span =>
    simp only [Typed.Expr.relocated, lowerExpr, Typed.Expr.type_relocated]
    refine .bind (lowerExpr_alike value) fun _ _ _ => .bind (store_alike _ _ _ _) fun _ _ _ => ?_
    exact .map (load_alike _ _ _ _) fun _ _ _ => trivial
  | .convert operand source target type span =>
    simp only [Typed.Expr.relocated, lowerExpr]
    exact .bind (lowerExpr_alike operand) fun _ _ _ => coerce_alike _ _ _ _
  | .call callee arguments parameterTypes callSpan type span =>
    simp only [Typed.Expr.relocated, lowerExpr]
    refine .bind (functionResult_alike callee _ _) ?_
    rintro _ result rfl
    exact .ite Iff.rfl (.throw rfl)
      (.bind (lowerArguments_alike arguments parameterTypes) fun _ _ _ => call_alike callee)

theorem lowerArguments_alike (arguments : List Typed.Expr) (types : List NumType) :
    RunsAlike (Emitter.Coupled φ) (fun _ _ => True) (lowerArguments arguments types)
      (lowerArguments (Typed.relocatedExprs φ arguments) types) := by
  match arguments, types with
  | [], _ => exact .pure trivial
  | _ :: _, [] => exact .pure trivial
  | argument :: arguments, parameter :: parameters =>
    simp only [Typed.relocatedExprs, lowerArguments, Typed.Expr.type_relocated]
    refine .bind (lowerExpr_alike argument) fun _ _ _ => .bind (coerce_alike _ _ _ _) fun _ _ _ => ?_
    exact lowerArguments_alike arguments parameters

end

theorem lowerCondition_alike (e : Typed.Expr) :
    RunsAlike (Emitter.Coupled φ) (fun _ _ => True) (lowerCondition e)
      (lowerCondition (e.relocated φ)) := by
  unfold lowerCondition
  rw [Typed.Expr.type_relocated]
  exact .bind (lowerExpr_alike e) fun _ _ _ => asCondition_alike _

theorem lowerDeclare_alike (slot : String) (value : Option Typed.Expr) (type : NumType) (span : Span) :
    RunsAlike (Emitter.Coupled φ) (fun _ _ => True) (lowerDeclare slot value type span)
      (lowerDeclare slot (value.map (·.relocated φ)) type (φ span)) := by
  cases value with
  | none =>
    refine .bind (emit_alike _) fun _ _ _ => ?_
    exact .map (store_alike _ _ _ _) fun _ _ _ => trivial
  | some value =>
    simp only [lowerDeclare, Option.map_some, Typed.Expr.type_relocated]
    refine .bind (lowerExpr_alike value) fun _ _ _ => .bind (slotFor_alike _ _) fun _ _ _ => ?_
    exact .map (store_alike _ _ _ _) fun _ _ _ => trivial

theorem lowerReturn_alike (value : Option Typed.Expr) (span : Span) :
    RunsAlike (Emitter.Coupled φ) (fun _ _ => True) (lowerReturn value span)
      (lowerReturn (value.map (·.relocated φ)) (φ span)) := by
  cases value with
  | none => exact emit_alike _
  | some value =>
    simp only [lowerReturn, Option.map_some, Typed.Expr.type_relocated]
    refine .bind (lowerExpr_alike value) fun _ _ _ => .bind .get fun s t hst => ?_
    rw [hst.result]
    cases s.result with
    | none => exact .throw rfl
    | some result => exact .bind (coerce_alike _ _ _ _) fun _ _ _ => emit_alike _

theorem lowerTest_alike (label : Nat) (condition : Option Typed.Expr) :
    RunsAlike (Emitter.Coupled φ) (fun _ _ => True) (lowerTest label condition)
      (lowerTest label (condition.map (·.relocated φ))) := by
  cases condition with
  | none => exact .pure trivial
  | some condition =>
    refine .bind (lowerCondition_alike condition) fun _ _ _ => ?_
    exact .bind (emit_alike _) fun _ _ _ => emit_alike _

mutual

theorem lowerStmt_alike (s : Typed.Stmt) :
    RunsAlike (Emitter.Coupled φ) (fun _ _ => True) (lowerStmt s) (lowerStmt (s.relocated φ)) := by
  match s with
  | .declare slot value type span => exact lowerDeclare_alike slot value type span
  | .returnValue value span => exact lowerReturn_alike value span
  | .block body span => exact lowerStmts_alike body
  | .assign slot value span =>
    simp only [Typed.Stmt.relocated, lowerStmt, Typed.Expr.type_relocated]
    refine .bind (lowerExpr_alike value) fun _ _ _ => ?_
    exact .map (store_alike _ _ _ _) fun _ _ _ => trivial
  | .branch condition yes no span =>
    refine .bind (lowerCondition_alike condition) fun _ _ _ => .bind (emit_alike _) fun _ _ _ => ?_
    refine .bind (lowerStmt_alike yes) fun _ _ _ => .bind (lowerElse_alike no) fun _ _ _ => ?_
    exact emit_alike _
  | .loop start condition body step span =>
    refine .bind (lowerStmt?_alike start) fun _ _ _ => .bind newLabel_alike ?_
    rintro _ label rfl
    refine .bind (emit_alike _) fun _ _ _ => .bind (emit_alike _) fun _ _ _ => ?_
    refine .bind (lowerTest_alike label condition) fun _ _ _ => ?_
    refine .bind (inLoop_alike label (.bind (emit_alike _) fun _ _ _ => lowerStmt_alike body))
      fun _ _ _ => ?_
    refine .bind (emit_alike _) fun _ _ _ => .bind (lowerStmt?_alike step) fun _ _ _ => ?_
    refine .bind (emit_alike _) fun _ _ _ => .bind (emit_alike _) fun _ _ _ => ?_
    exact emit_alike _
  | .breakLoop span =>
    refine .bind (innermost_alike "break" _ _) ?_
    rintro _ label rfl
    exact emit_alike _
  | .continueLoop span =>
    refine .bind (innermost_alike "continue" _ _) ?_
    rintro _ label rfl
    exact emit_alike _
  | .print value span =>
    simp only [Typed.Stmt.relocated, lowerStmt, Typed.Expr.type_relocated]
    exact .bind (lowerExpr_alike value) fun _ _ _ => call_alike _
  | .expression value => exact .bind (lowerExpr_alike value) fun _ _ _ => emit_alike _
  | .call callee arguments parameterTypes span =>
    refine .bind (functionResult_alike callee _ _) ?_
    rintro _ result rfl
    refine .bind (P := fun _ _ => True) ?_ fun _ _ _ => .ite Iff.rfl (emit_alike _) (.pure trivial)
    exact .bind (lowerArguments_alike arguments parameterTypes) fun _ _ _ => call_alike callee

theorem lowerStmt?_alike (s : Option Typed.Stmt) :
    RunsAlike (Emitter.Coupled φ) (fun _ _ => True) (lowerStmt? s)
      (lowerStmt? (Typed.relocatedStmt? φ s)) := by
  match s with
  | none => exact .pure trivial
  | some s => exact lowerStmt_alike s

theorem lowerElse_alike (s : Option Typed.Stmt) :
    RunsAlike (Emitter.Coupled φ) (fun _ _ => True) (lowerElse s)
      (lowerElse (Typed.relocatedStmt? φ s)) := by
  match s with
  | none => exact .pure trivial
  | some s =>
    unfold Typed.relocatedStmt? lowerElse
    refine .ite (by rw [Typed.Stmt.isEmptyBlock_relocated]) (.pure trivial) ?_
    exact .bind (emit_alike _) fun _ _ _ => lowerStmt_alike s

theorem lowerStmts_alike (ss : List Typed.Stmt) :
    RunsAlike (Emitter.Coupled φ) (fun _ _ => True) (lowerStmts ss)
      (lowerStmts (Typed.relocatedStmts φ ss)) := by
  match ss with
  | [] => exact .pure trivial
  | s :: ss => exact .bind (lowerStmt_alike s) fun _ _ _ => lowerStmts_alike ss

end

end Trees

section Programs

theorem addParameters_alike (parameters : List Typed.Parameter) :
    RunsAlike (Emitter.Coupled φ) (fun _ _ => True)
      (parameters.forM fun p => (discard (addParameter p.name p.type) : Lowering PUnit))
      (parameters.forM fun p => (discard (addParameter p.name p.type) : Lowering PUnit)) := by
  induction parameters with
  | nil => exact .pure trivial
  | cons p ps ih =>
    refine .bind (P := fun _ _ => True) ?_ fun _ _ _ => ih
    exact .map (changeSlots_alike _ _) fun _ _ _ => trivial

theorem lowerBody_alike (f : Typed.Function) :
    RunsAlike (Emitter.Coupled φ) (fun a b => b = a) (lowerBody f) (lowerBody (f.relocated φ)) := by
  have hend : RunsAlike (Emitter.Coupled φ) (fun a b => b = a)
      (modifyGet fun s => (s.output.toList, { s with output := #[] }) : Lowering (List Instr))
      (modifyGet fun s => (s.output.toList, { s with output := #[] }) : Lowering (List Instr)) :=
    fun s t h => ⟨congrArg Array.toList h.output, h.program, h.usedHosts, rfl, h.slots, h.storage,
      h.result, h.loops, h.nextLabel⟩
  unfold lowerBody
  refine .bind (P := fun _ _ => True) ?_ fun _ _ _ => ?_
  · exact .modify fun _ _ h => ⟨h.program, h.usedHosts, rfl, rfl, rfl, rfl, rfl, rfl⟩
  refine .bind (addParameters_alike f.parameters) fun _ _ _ => ?_
  refine .bind (lowerStmts_alike f.body) fun _ _ _ => ?_
  refine .ite ?_ (.bind (emit_alike _) fun _ _ _ => hend) hend
  rw [show (f.relocated φ).body.getLast?.any Typed.Stmt.isReturn =
    f.body.getLast?.any Typed.Stmt.isReturn from Typed.endsInReturn_relocated φ f.body]
  exact Iff.rfl

theorem lowerFunction_alike (f : Typed.Function) (exportName : Option String) :
    RunsAlike (Emitter.Coupled φ) (fun a b => b = a) (lowerFunction f exportName)
      (lowerFunction (f.relocated φ) exportName) := by
  unfold lowerFunction
  refine .bind (report_alike _ _) fun _ _ _ => .bind (lowerBody_alike f) ?_
  rintro _ body rfl
  refine .bind .get fun s t hst => ?_
  rw [hst.slots]
  exact .bind (report_alike _ _) fun _ _ _ => .pure rfl

theorem lowerFunctions_alike (exported : Bool) (fs : List Typed.Function) :
    RunsAlike (Emitter.Coupled φ) (fun a b => b = a) (lowerFunctions exported fs)
      (lowerFunctions exported (fs.map (·.relocated φ))) := by
  induction fs with
  | nil => exact .pure rfl
  | cons f fs ih =>
    refine .bind (lowerFunction_alike f _) ?_
    rintro _ form rfl
    refine .bind ih ?_
    rintro _ forms rfl
    exact .pure rfl

/-- A program is lowered to the same module wherever its parts stand. -/
theorem lowerProgram_alike (options : Options) :
    RunsAlike (Emitter.Coupled φ) (fun a b => b = a) (lowerProgram options)
      (lowerProgram options) := by
  unfold lowerProgram
  refine .bind .get fun s t hst => ?_
  rw [hst.program]
  refine .bind (lowerFunctions_alike _ s.program.functions) ?_
  rintro _ forms rfl
  refine .bind (lowerFunction_alike s.program.entry _) ?_
  rintro _ form rfl
  refine .bind .get fun s₁ t₁ hst₁ => .pure ?_
  rw [imports, imports, hst₁.usedHosts]

end Programs

end Lowering
end Numlet
