import Mathlib.Data.List.Basic
import Numlet.Compile
import Numlet.Proofs.Outcome

/-!
What was done before a lowering does not change it. The used hosts and the events of earlier work are carried
along: a lowering that starts with them ends as one that starts without them, with these hosts and events
beside its own.
-/
namespace Numlet

section Results

variable {σ α : Type}

/-- A result with its state changed. -/
def onState (g : σ → σ) : EStateM.Result Diagnostic σ α → EStateM.Result Diagnostic σ α
  | .ok a s => .ok a (g s)
  | .error d s => .error d (g s)

@[simp] theorem answer_onState (g : σ → σ) (r : EStateM.Result Diagnostic σ α) :
    answer (onState g r) = answer r := by
  cases r <;> rfl

@[simp] theorem finalState_onState (g : σ → σ) (r : EStateM.Result Diagnostic σ α) :
    finalState (onState g r) = g (finalState r) := by
  cases r <;> rfl

end Results

/-- A state with the hosts and events of earlier work beside its own. -/
def Emitter.carrying (s : Emitter) (hosts : List Host) (log : Array Event) : Emitter :=
  { s with usedHosts := s.usedHosts ∪ hosts, log := log ++ s.log }

/-- A lowering takes no notice of hosts and events of earlier work, and keeps the program. -/
structure Lowering.Carries {α : Type} (m : Lowering α) : Prop where
  result : ∀ s hosts log, m (s.carrying hosts log) = onState (·.carrying hosts log) (m s)
  program : ∀ s, (finalState (m s)).program = s.program

namespace Lowering

namespace Carries

variable {α β : Type}

theorem pure (a : α) : Carries (pure a : Lowering α) := ⟨fun _ _ _ => rfl, fun _ => rfl⟩

theorem throw (d : Diagnostic) : Carries (throw d : Lowering α) := ⟨fun _ _ _ => rfl, fun _ => rfl⟩

theorem bind {m : Lowering α} {k : α → Lowering β} (h : Carries m) (hk : ∀ a, Carries (k a)) :
    Carries (m >>= k) := by
  constructor
  · intro s hosts log
    change EStateM.bind m k (s.carrying hosts log) = onState _ (EStateM.bind m k s)
    unfold EStateM.bind
    rw [h.result]
    cases m s with
    | ok a s' => exact (hk a).result s' hosts log
    | error d s' => rfl
  · intro s
    have hfirst := h.program s
    change (finalState (EStateM.bind m k s)).program = _
    unfold EStateM.bind
    cases hm : m s with
    | ok a s' =>
      rw [hm] at hfirst
      exact ((hk a).program s').trans hfirst
    | error d s' =>
      rw [hm] at hfirst
      exact hfirst

theorem map {m : Lowering α} (g : α → β) (h : Carries m) : Carries (g <$> m) := by
  have hbind : g <$> m = m >>= fun a => Pure.pure (g a) := by
    funext s
    change EStateM.map g m s = EStateM.bind m (fun a => EStateM.pure (g a)) s
    unfold EStateM.map EStateM.bind
    cases m s with
    | ok a s' => rfl
    | error d s' => rfl
  rw [hbind]
  exact .bind h fun a => .pure (g a)

/-- What is read from the state is neither its hosts nor its events. -/
theorem get_bind {k : Emitter → Lowering α} (hsame : ∀ s hosts log, k (s.carrying hosts log) = k s)
    (h : ∀ s, Carries (k s)) : Carries (get >>= k) := by
  refine ⟨fun s hosts log => ?_, fun s => (h s).program s⟩
  change k (s.carrying hosts log) (s.carrying hosts log) = onState _ (k s s)
  rw [hsame]
  exact (h s).result s hosts log

theorem ite {c : Prop} [Decidable c] {m n : Lowering α} (hm : Carries m) (hn : Carries n) :
    Carries (if c then m else n) := by
  by_cases hc : c
  · rwa [if_pos hc]
  · rwa [if_neg hc]

end Carries

section Steps

theorem report_carries (event : Event) : Carries (report event) := by
  refine ⟨fun s hosts log => ?_, fun _ => rfl⟩
  change EStateM.Result.ok _ _ = EStateM.Result.ok _ _
  simp only [Emitter.carrying, Array.append_push]

theorem emit_carries (i : Instr) : Carries (emit i) := ⟨fun _ _ _ => rfl, fun _ => rfl⟩

theorem coerce_carries (source target : NumType) (span : Span) : Carries (coerce source target span) := by
  unfold coerce
  cases Conversion.plan source target span.start with
  | error d => exact .throw d
  | ok c =>
    cases c with
    | none => exact .pure ()
    | some c => exact emit_carries _

theorem changeSlots_carries (name : String) (change : Slots → Slot × Slots) :
    Carries (changeSlots name change) := by
  unfold changeSlots
  refine .get_bind (fun _ _ _ => rfl) fun s => ?_
  have hend (slot : Slot) (slots : Slots) : Carries (do
      modify fun s : Emitter => { s with slots := slots }
      return slot : Lowering Slot) := ⟨fun _ _ _ => rfl, fun _ => rfl⟩
  exact .ite (.bind (report_carries _) fun _ => hend _ _) (hend _ _)

theorem slotFor_carries (name : String) (fallback : NumType) : Carries (slotFor name fallback) :=
  .get_bind (fun _ _ _ => rfl) fun _ => changeSlots_carries name _

theorem store_carries (name : String) (type : NumType) (span : Span) : Carries (store name type span) := by
  unfold store
  refine .bind (slotFor_carries name type) fun slot => .bind (coerce_carries _ _ _) fun _ => ?_
  exact .bind (emit_carries _) fun _ => .pure slot

theorem load_carries (name : String) (type : NumType) (span : Span) : Carries (load name type span) := by
  unfold load
  refine .bind (slotFor_carries name type) fun slot => .bind (emit_carries _) fun _ => ?_
  exact .bind (coerce_carries _ _ _) fun _ => .pure slot

/-- A host that was used before is not remembered twice. -/
theorem call_carries (callee : String) : Carries (call callee) := by
  unfold call
  cases Host.find? callee with
  | none => exact emit_carries _
  | some host =>
    refine .bind ⟨fun s hosts log => ?_, fun _ => rfl⟩ fun _ => emit_carries _
    have hinsert : (s.usedHosts ∪ hosts).insert host = s.usedHosts.insert host ∪ hosts := by
      by_cases hused : host ∈ s.usedHosts
      · rw [List.insert_of_mem hused, List.insert_of_mem (List.mem_union_iff.mpr (.inl hused))]
      · rw [List.insert_of_not_mem hused, List.cons_union]
    change EStateM.Result.ok _ _ = EStateM.Result.ok _ _
    simp only [Emitter.carrying, hinsert]

theorem functionResult_carries (callee : String) (span : Span) : Carries (functionResult callee span) := by
  unfold functionResult
  cases Host.find? callee with
  | some host => exact .pure _
  | none =>
    refine .get_bind (fun _ _ _ => rfl) fun s => ?_
    cases s.program.find? callee with
    | none => exact .throw _
    | some f => exact .pure _

theorem innermost_carries (construct : String) (span : Span) : Carries (innermost construct span) := by
  refine .get_bind (fun _ _ _ => rfl) fun s => ?_
  cases s.loops with
  | nil => exact .throw _
  | cons label _ => exact .pure label

theorem inLoop_carries (label : Nat) {m : Lowering Unit} (h : Carries m) : Carries (inLoop label m) := by
  have heq : inLoop label m = fun s : Emitter => onState (fun s' => { s' with loops := s.loops })
      (m { s with loops := label :: s.loops }) := by
    funext s
    unfold inLoop
    cases m { s with loops := label :: s.loops } with
    | ok a s' => rfl
    | error d s' => rfl
  rw [heq]
  constructor
  · intro s hosts log
    have hinner := h.result { s with loops := label :: s.loops } hosts log
    change onState _ (m (Emitter.carrying { s with loops := label :: s.loops } hosts log)) = _
    rw [hinner]
    cases m { s with loops := label :: s.loops } with
    | ok a s' => rfl
    | error d s' => rfl
  · intro s
    rw [finalState_onState]
    exact h.program { s with loops := label :: s.loops }

end Steps

section Trees

theorem truth_carries (type : NumType) : Carries (truth type) :=
  .bind (emit_carries _) fun _ => emit_carries _

theorem asCondition_carries (type : NumType) : Carries (asCondition type) :=
  .ite (truth_carries type) (.pure ())

theorem applyUnary_carries (op : UnaryOp) (type : NumType) : Carries (applyUnary op type) := by
  cases op with
  | plus => exact .pure ()
  | negate => exact .bind (emit_carries _) fun _ => emit_carries _
  | not => exact .ite (emit_carries _) (.bind (emit_carries _) fun _ => emit_carries _)

theorem step_carries (op : UpdateOp) (slot : String) (type : NumType) (span : Span) :
    Carries (step op slot type span) := by
  unfold step
  refine .bind (load_carries _ _ _) fun _ => .bind (load_carries _ _ _) fun _ => ?_
  refine .bind (emit_carries _) fun _ => .bind (emit_carries _) fun _ => ?_
  exact .bind (store_carries _ _ _) fun _ => .pure ()

mutual

theorem lowerExpr_carries (e : Typed.Expr) : Carries (lowerExpr e) := by
  match e with
  | .literal value type span => exact emit_carries _
  | .var slot type span => exact .map _ (load_carries _ _ _)
  | .binary op left right operandType type span =>
    by_cases hand : op = .and
    · subst hand
      refine .bind (lowerExpr_carries left) fun _ => .bind (asCondition_carries _) fun _ => ?_
      refine .bind (emit_carries _) fun _ => .bind (lowerExpr_carries right) fun _ => ?_
      refine .bind (truth_carries _) fun _ => .bind (emit_carries _) fun _ => ?_
      exact .bind (emit_carries _) fun _ => emit_carries _
    by_cases hor : op = .or
    · subst hor
      refine .bind (lowerExpr_carries left) fun _ => .bind (asCondition_carries _) fun _ => ?_
      refine .bind (emit_carries _) fun _ => .bind (emit_carries _) fun _ => ?_
      refine .bind (emit_carries _) fun _ => .bind (lowerExpr_carries right) fun _ => ?_
      exact .bind (truth_carries _) fun _ => emit_carries _
    simp only [lowerExpr]
    refine .bind (lowerExpr_carries left) fun _ => .bind (coerce_carries _ _ _) fun _ => ?_
    refine .bind (lowerExpr_carries right) fun _ => .bind (coerce_carries _ _ _) fun _ => ?_
    cases NumericOp.ofBinary? op operandType with
    | some numeric => exact emit_carries _
    | none => exact .throw _
  | .unary op operand type span =>
    exact .bind (lowerExpr_carries operand) fun _ => applyUnary_carries op operand.type
  | .update op slot type span => exact step_carries op slot type span
  | .assign slot value type span =>
    refine .bind (lowerExpr_carries value) fun _ => .bind (store_carries _ _ _) fun _ => ?_
    exact .map _ (load_carries _ _ _)
  | .convert operand source target type span =>
    exact .bind (lowerExpr_carries operand) fun _ => coerce_carries source target span
  | .call callee arguments parameterTypes callSpan type span =>
    refine .bind (functionResult_carries callee callSpan) fun _ => .ite (.throw _) ?_
    exact .bind (lowerArguments_carries arguments parameterTypes) fun _ => call_carries callee

theorem lowerArguments_carries (arguments : List Typed.Expr) (types : List NumType) :
    Carries (lowerArguments arguments types) := by
  match arguments, types with
  | [], _ => exact .pure ()
  | _ :: _, [] => exact .pure ()
  | argument :: arguments, parameter :: parameters =>
    refine .bind (lowerExpr_carries argument) fun _ => .bind (coerce_carries _ _ _) fun _ => ?_
    exact lowerArguments_carries arguments parameters

end

theorem lowerCondition_carries (e : Typed.Expr) : Carries (lowerCondition e) :=
  .bind (lowerExpr_carries e) fun _ => asCondition_carries e.type

theorem lowerDeclare_carries (slot : String) (value : Option Typed.Expr) (type : NumType) (span : Span) :
    Carries (lowerDeclare slot value type span) := by
  cases value with
  | none => exact .bind (emit_carries _) fun _ => .map _ (store_carries _ _ _)
  | some value =>
    refine .bind (lowerExpr_carries value) fun _ => .bind (slotFor_carries slot type) fun _ => ?_
    exact .map _ (store_carries _ _ _)

theorem lowerReturn_carries (value : Option Typed.Expr) (span : Span) :
    Carries (lowerReturn value span) := by
  cases value with
  | none => exact emit_carries _
  | some value =>
    refine .bind (lowerExpr_carries value) fun _ => .get_bind (fun _ _ _ => rfl) fun s => ?_
    cases s.result with
    | none => exact .throw _
    | some result => exact .bind (coerce_carries _ _ _) fun _ => emit_carries _

theorem lowerTest_carries (label : Nat) (condition : Option Typed.Expr) :
    Carries (lowerTest label condition) := by
  cases condition with
  | none => exact .pure ()
  | some condition =>
    refine .bind (lowerCondition_carries condition) fun _ => ?_
    exact .bind (emit_carries _) fun _ => emit_carries _

mutual

theorem lowerStmt_carries (s : Typed.Stmt) : Carries (lowerStmt s) := by
  match s with
  | .declare slot value type span => exact lowerDeclare_carries slot value type span
  | .returnValue value span => exact lowerReturn_carries value span
  | .block body span => exact lowerStmts_carries body
  | .assign slot value span => exact .bind (lowerExpr_carries value) fun _ => .map _ (store_carries _ _ _)
  | .branch condition yes no span =>
    refine .bind (lowerCondition_carries condition) fun _ => .bind (emit_carries _) fun _ => ?_
    refine .bind (lowerStmt_carries yes) fun _ => .bind (lowerElse_carries no) fun _ => ?_
    exact emit_carries _
  | .loop start condition body step span =>
    refine .bind (lowerStmt?_carries start) fun _ => .bind ⟨fun _ _ _ => rfl, fun _ => rfl⟩ fun label => ?_
    refine .bind (emit_carries _) fun _ => .bind (emit_carries _) fun _ => ?_
    refine .bind (lowerTest_carries label condition) fun _ => ?_
    refine .bind (inLoop_carries label (.bind (emit_carries _) fun _ => lowerStmt_carries body))
      fun _ => ?_
    refine .bind (emit_carries _) fun _ => .bind (lowerStmt?_carries step) fun _ => ?_
    refine .bind (emit_carries _) fun _ => .bind (emit_carries _) fun _ => ?_
    exact emit_carries _
  | .breakLoop span => exact .bind (innermost_carries "break" span) fun _ => emit_carries _
  | .continueLoop span => exact .bind (innermost_carries "continue" span) fun _ => emit_carries _
  | .print value span => exact .bind (lowerExpr_carries value) fun _ => call_carries _
  | .expression value => exact .bind (lowerExpr_carries value) fun _ => emit_carries _
  | .call callee arguments parameterTypes span =>
    refine .bind (functionResult_carries callee span) fun result => .bind ?_ fun _ => ?_
    · exact .bind (lowerArguments_carries arguments parameterTypes) fun _ => call_carries callee
    · exact .ite (emit_carries _) (.pure ())

theorem lowerStmt?_carries (s : Option Typed.Stmt) : Carries (lowerStmt? s) := by
  match s with
  | none => exact .pure ()
  | some s => exact lowerStmt_carries s

theorem lowerElse_carries (s : Option Typed.Stmt) : Carries (lowerElse s) := by
  match s with
  | none => exact .pure ()
  | some s =>
    unfold lowerElse
    exact .ite (.pure ()) (.bind (emit_carries _) fun _ => lowerStmt_carries s)

theorem lowerStmts_carries (ss : List Typed.Stmt) : Carries (lowerStmts ss) := by
  match ss with
  | [] => exact .pure ()
  | s :: ss => exact .bind (lowerStmt_carries s) fun _ => lowerStmts_carries ss

end

end Trees

section Functions

theorem addParameters_carries (parameters : List Typed.Parameter) :
    Carries (parameters.forM fun p => (discard (addParameter p.name p.type) : Lowering PUnit)) := by
  induction parameters with
  | nil => exact .pure _
  | cons p ps ih => exact .bind (.map _ (changeSlots_carries _ _)) fun _ => ih

theorem lowerBody_carries (f : Typed.Function) : Carries (lowerBody f) := by
  have hend : Carries
      (modifyGet fun s => (s.output.toList, { s with output := #[] }) : Lowering (List Instr)) :=
    ⟨fun _ _ _ => rfl, fun _ => rfl⟩
  unfold lowerBody
  refine .bind ⟨fun _ _ _ => rfl, fun _ => rfl⟩ fun _ => ?_
  refine .bind (addParameters_carries f.parameters) fun _ => ?_
  refine .bind (lowerStmts_carries f.body) fun _ => ?_
  exact .ite (.bind (emit_carries _) fun _ => hend) hend

theorem lowerFunction_carries (f : Typed.Function) (exportName : Option String) :
    Carries (lowerFunction f exportName) := by
  unfold lowerFunction
  refine .bind (report_carries _) fun _ => .bind (lowerBody_carries f) fun body => ?_
  refine .get_bind (fun _ _ _ => rfl) fun s => ?_
  exact .bind (report_carries _) fun _ => .pure _

end Functions

end Lowering
end Numlet
