import Numlet.Proofs.Placed
import Numlet.Proofs.Settling

/-!
Where the faults lie that a check finds. Each lies at a place of the tree, and the checked tree keeps the
places.
-/
namespace Numlet

def Fault.isContextViolation : Fault → Bool
  | .contextViolation _ _ => true
  | _ => false

namespace Checking

variable {m : Marks}

/-- The part of a state that the check of an expression leaves alone, and the faults that it can find: it
sees neither the loop nor the function that the expression stands in. -/
structure Allows (m : Marks) (R : Checker → Prop) (E : Diagnostic → Prop) : Prop where
  keeps {s s' : Checker} : s'.scope.function = s.scope.function → s'.scope.inLoop = s.scope.inLoop →
    R s → R s'
  admits {d : Diagnostic} : m.Admits d → d.fault.isContextViolation = false → E d

theorem Allows.anywhere : Allows m (fun _ => True) m.Admits := ⟨fun _ _ h => h, fun h _ => h⟩

section Simple

variable {R : Checker → Prop} {E : Diagnostic → Prop}

section Steps

theorem lookup?_covers (name : String) : Blames R E (fun _ => True) (lookup? name) :=
  .bind .get fun _ _ => .pure trivial

theorem readType_covers (slot : String) (type : NumType) :
    Blames R E (fun _ => True) (readType slot type) :=
  .bind .get fun _ _ => .pure trivial

theorem checkOption_covers {α β : Type} {P : β → Prop} {check : α → Checking β} {value : Option α}
    (h : ∀ a ∈ value, Blames R E P (check a)) :
    Blames R E (fun b => ∀ t ∈ b, P t) (checkOption check value) := by
  cases value with
  | none => exact .pure fun t ht => nomatch ht
  | some a =>
    refine (h a rfl).bind fun t ht => .pure fun t' ht' => ?_
    cases ht'
    exact ht

theorem checkJump_covers (construct : String) {span : Span} (hcontext : ∀ s : Checker, R s →
      s.scope.inLoop = false → E ⟨.contextViolation construct "a loop", span.start⟩) :
    Blames R E (fun _ => True) (checkJump construct span) := by
  refine .bind .get fun s hs => .ite (fun hout => ?_) fun _ => .pure trivial
  exact .throw (hcontext s hs (by simpa using hout))

end Steps

variable (c : Allows m R E)

include c

section Steps

theorem report_covers (event : Event) : Blames R E (fun _ => True) (report event) :=
  .modify fun _ => c.keeps rfl rfl

theorem setSignature_covers (name : String) (signature : Signature) :
    Blames R E (fun _ => True) (setSignature name signature) :=
  .modify fun _ => c.keeps rfl rfl

theorem record_covers (slot : String) (type : NumType) :
    Blames R E (fun _ => True) (record slot type) := by
  refine .bind .get fun s _ => ?_
  have hend (widened : NumType) : Blames R E (fun _ => True)
      (modify fun s => { s with storage := s.storage.insert slot widened }) :=
    .modify fun _ => c.keeps rfl rfl
  exact .ite (fun _ => (report_covers c _).bind fun _ _ => hend _) fun _ => hend _

theorem declareLocal_covers (name : String) (type : NumType) (fixed : Bool) :
    Blames R E (fun _ => True) (declareLocal name type fixed) := by
  refine .bind .get fun s _ => .bind (.modify fun _ => c.keeps rfl rfl) fun _ _ => ?_
  exact (record_covers c _ _).bind fun _ _ => .pure trivial

theorem variableOf_covers (name : String) {span : Span} (h : m.start span.start) :
    Blames R E (fun _ => True) (variableOf name span) := by
  refine (lookup?_covers name).bind fun v _ => ?_
  cases v with
  | none => exact .throw (c.admits h rfl)
  | some v => exact .pure trivial

theorem signatureOf_covers (name : String) {span : Span} (h : m.start span.start) :
    Blames R E (fun _ => True) (signatureOf name span) := by
  refine .bind .get fun s _ => ?_
  cases s.signatures.find? name with
  | none => exact .throw (c.admits h rfl)
  | some signature => exact .pure trivial

end Steps

section Expressions

theorem assignTo_covers {target : Expr} {check : Option NumType → Checking Typed.Expr}
    (htarget : target.Placed m) (h : ∀ hint, Blames R E (Typed.Expr.Placed m.start) (check hint)) :
    Blames R E (fun a => a.2.1.Placed m.start) (assignTo target check) := by
  cases target with
  | var name span =>
    refine (lookup?_covers name).bind fun v _ => (h _).bind fun value hvalue => ?_
    refine (lookup?_covers name).bind fun v _ => ?_
    cases v with
    | none =>
      refine .bind .get fun s _ => .ite (fun _ => ?_) fun _ => .throw (c.admits htarget rfl)
      exact (report_covers c _).bind fun _ _ => (declareLocal_covers c _ _ _).bind fun _ _ => .pure hvalue
    | some v =>
      dsimp only
      split
      · exact .throw (c.admits hvalue.span rfl)
      · have hkeeps (s : Checker) (type : NumType) :
            R s → R { s with scope := s.scope.retype name type } :=
          c.keeps (s.scope.function_retype ..) (s.scope.inLoop_retype ..)
        refine .bind (.modify fun s => hkeeps s _) fun _ _ => ?_
        exact (record_covers c _ _).bind fun _ _ => .pure hvalue
  | literal | binary | unary | update | assign | convert | call =>
    exact .throw (c.admits htarget.span rfl)

/-- A call that lacks arguments is blamed at its end, one that has too many at the first of them. -/
theorem checkArity_covers {callee : String} {arguments : List Expr} (expected : Nat) {span : Span}
    (hclose : m.close callee arguments.length span.stop) (h : placedExprs m arguments) :
    Blames R E (fun _ => True) (checkArity callee arguments expected span) := by
  refine .ite (fun hlt => .throw (c.admits ⟨hlt, hclose⟩ rfl)) fun _ => ?_
  split
  · exact .pure trivial
  · next extra rest hdrop =>
    have hmem : extra ∈ arguments := List.mem_of_mem_drop (hdrop ▸ List.mem_cons_self)
    exact .throw (c.admits (placedExprs_iff.mp h extra hmem).span rfl)

theorem callWith_covers {callee : String} {arguments : List Expr} {span : Span}
    {check : List NumType → Checking (List Typed.Expr)} (hspan : m.start span.start)
    (hclose : m.close callee arguments.length span.stop) (harguments : placedExprs m arguments)
    (h : ∀ types, Blames R E (Typed.placedExprs m.start) (check types)) :
    Blames R E (fun a => Typed.placedExprs m.start a.1) (callWith callee arguments span check) := by
  refine (signatureOf_covers c callee hspan).bind fun signature _ => ?_
  refine (checkArity_covers c _ hclose harguments).bind fun _ _ => ?_
  exact (h _).bind fun typed htyped => .pure htyped

theorem callResult_covers (callee : String) {span : Span} (h : m.start span.start) :
    Blames R E (fun _ => True) (callResult callee span) := by
  refine (signatureOf_covers c callee h).bind fun signature _ => .ite (fun _ => ?_) fun _ => ?_
  · cases signature.result with
    | none => exact .throw (c.admits h rfl)
    | some type => exact .pure trivial
  · refine (report_covers c _).bind fun _ _ => ?_
    exact (setSignature_covers c _ _).bind fun _ _ => .pure trivial

theorem binaryTypes_covers (op : BinaryOp) (left right : NumType) {span : Span}
    (h : m.start span.start) : Blames R E (fun _ => True) (binaryTypes op left right span) :=
  .ite (fun _ => .pure trivial) fun _ => .ite (fun _ => .throw (c.admits h rfl)) fun _ => .pure trivial

mutual

theorem checkExpr_covers (e : Expr) (hint : Option NumType) (h : e.Placed m) :
    Blames R E (Typed.Expr.Placed m.start) (checkExpr e hint) := by
  match e, h with
  | .literal value span, h =>
    rw [checkExpr]
    exact .pure h
  | .var name span, h =>
    rw [checkExpr]
    refine (variableOf_covers c name h).bind fun v _ => ?_
    exact (readType_covers _ _).bind fun _ _ => .pure h
  | .binary op left right span, ⟨hspan, hleft, hright⟩ =>
    rw [checkExpr]
    refine (checkExpr_covers left _ hleft).bind fun first hfirst => ?_
    refine (checkExpr_covers right _ hright).bind fun second hsecond => ?_
    have hend (first : Typed.Expr) (hfirst : first.Placed m.start) :
        Blames R E (Typed.Expr.Placed m.start) (do
          let types ← binaryTypes op first.type second.type span
          return .binary op first second types.1 types.2 span) :=
      (binaryTypes_covers c op _ _ hspan).bind fun _ _ => .pure ⟨hspan, hfirst, hsecond⟩
    exact .ite (fun _ => (checkExpr_covers left _ hleft).bind hend) fun _ => (Blames.pure hfirst).bind hend
  | .unary op operand span, ⟨hspan, hoperand⟩ =>
    rw [checkExpr]
    exact (checkExpr_covers operand _ hoperand).bind fun typed htyped => .pure ⟨hspan, htyped⟩
  | .update op target targetSpan span, ⟨hspan, htarget⟩ =>
    rw [checkExpr]
    refine (variableOf_covers c target htarget).bind fun v _ => ?_
    exact (readType_covers _ _).bind fun _ _ => .pure hspan
  | .assign target value span, ⟨hspan, htarget, hvalue⟩ =>
    rw [checkExpr]
    refine (assignTo_covers c htarget fun hint => checkExpr_covers value hint hvalue).bind
      fun assigned hassigned => ?_
    exact (readType_covers _ _).bind fun _ _ => .pure ⟨hspan, hassigned⟩
  | .convert operand source target span, ⟨hspan, hoperand⟩ =>
    rw [checkExpr]
    refine (checkExpr_covers operand _ hoperand).bind fun typed htyped => ?_
    have hend : Blames R E (Typed.Expr.Placed m.start)
        (pure (.convert typed typed.type target target span) : Checking Typed.Expr) :=
      .pure ⟨hspan, htyped⟩
    cases source with
    | none => exact hend
    | some declared =>
      exact .ite (fun _ => (report_covers c _).bind fun _ _ => hend) fun _ => hend
  | .call callee arguments span, ⟨hspan, hclose, harguments⟩ =>
    rw [checkExpr]
    refine (callWith_covers c hspan hclose harguments fun types =>
      checkArguments_covers callee arguments types harguments).bind fun typed htyped => ?_
    exact (callResult_covers c callee hspan).bind fun _ _ => .pure ⟨hspan, hspan, htyped⟩

theorem checkArguments_covers (callee : String) (arguments : List Expr) (types : List NumType)
    (h : placedExprs m arguments) :
    Blames R E (Typed.placedExprs m.start) (checkArguments callee arguments types) := by
  match arguments, types, h with
  | argument :: arguments, parameter :: parameters, ⟨hargument, hrest⟩ =>
    rw [checkArguments]
    refine (checkExpr_covers argument _ hargument).bind fun typed htyped => ?_
    have hend : Blames R E (Typed.placedExprs m.start)
        (do return typed :: (← checkArguments callee arguments parameters)) :=
      (checkArguments_covers callee arguments parameters hrest).bind fun rest hrest =>
        .pure ⟨htyped, hrest⟩
    exact .ite (fun _ => .throw (c.admits htyped.span rfl)) fun _ => hend
  | [], _, _ | _ :: _, [], _ =>
    rw [checkArguments]
    · exact .pure trivial
    · simp

end

theorem checkCall_covers {callee : String} {arguments : List Expr} {span : Span}
    (hspan : m.start span.start) (hclose : m.close callee arguments.length span.stop)
    (h : placedExprs m arguments) :
    Blames R E (fun a => Typed.placedExprs m.start a.1) (checkCall callee arguments span) :=
  callWith_covers c hspan hclose h fun types => checkArguments_covers c callee arguments types h

end Expressions

section SimpleStatements

theorem checkDeclare_covers (name : String) (declared : Option NumType) {value : Option Expr}
    {span : Span} (hspan : m.start span.start) (hvalue : ∀ e ∈ value, e.Placed m) :
    Blames R E (Typed.Stmt.Placed m.start) (checkDeclare name declared value span) := by
  refine (checkOption_covers fun e he => checkExpr_covers c e _ (hvalue e he)).bind fun typed htyped => ?_
  have hend (type : NumType) : Blames R E (Typed.Stmt.Placed m.start) (do
      let slot ← declareLocal name type declared.isSome
      return .declare slot typed type span) :=
    (declareLocal_covers c _ _ _).bind fun _ _ => .pure ⟨hspan, htyped⟩
  cases declared with
  | none => exact hend _
  | some type =>
    cases typed with
    | none => exact hend _
    | some value =>
      exact .ite (fun _ => .throw (c.admits (htyped value rfl).span rfl)) fun _ => hend _

theorem checkReturn_covers {value : Option Expr} {span : Span} (hspan : m.start span.start)
    (hvalue : ∀ e ∈ value, e.Placed m) (hcontext : ∀ s : Checker, R s → s.scope.function = none →
      E ⟨.contextViolation "return" "a function body", span.start⟩) :
    Blames R E (Typed.Stmt.Placed m.start) (checkReturn value span) := by
  refine .bind .get fun s hs => ?_
  cases hfunction : s.scope.function with
  | none => exact .throw (hcontext s hs hfunction)
  | some function =>
    refine (signatureOf_covers c function hspan).bind fun signature _ => ?_
    cases value with
    | none =>
      cases signature.result with
      | some result => exact .throw (c.admits hspan rfl)
      | none =>
        exact .bind (.modify fun _ => c.keeps rfl rfl) fun _ _ => .pure ⟨hspan, fun _ h => nomatch h⟩
    | some value =>
      refine (checkExpr_covers c value _ (hvalue value rfl)).bind fun typed htyped => ?_
      have hend : Blames R E (Typed.Stmt.Placed m.start)
          (pure (.returnValue (some typed) span) : Checking Typed.Stmt) := by
        refine .pure ⟨hspan, fun t ht => ?_⟩
        cases ht
        exact htyped
      refine .bind .get fun s _ => .ite (fun _ => .throw (c.admits htyped.span rfl)) fun _ => ?_
      refine .bind (.modify fun _ => c.keeps rfl rfl) fun _ _ => .ite (fun _ => ?_) fun _ => ?_
      · exact .ite (fun _ => .throw (c.admits htyped.span rfl)) fun _ => hend
      · refine .bind .get fun s _ => ?_
        cases s.signatures.find? function with
        | none => exact hend
        | some current => exact (setSignature_covers c _ _).bind fun _ _ => hend

theorem assignStmt_covers {target value : Expr} {span : Span} (hspan : m.start span.start)
    (htarget : target.Placed m) (hvalue : value.Placed m) :
    Blames R E (Typed.Stmt.Placed m.start) (do
      let (slot, value, _) ← assignTo target (checkExpr value)
      return Typed.Stmt.assign slot value span) :=
  (assignTo_covers c htarget fun hint => checkExpr_covers c value hint hvalue).bind fun _ hassigned =>
    .pure ⟨hspan, hassigned⟩

theorem callStmt_covers {callee : String} {arguments : List Expr} {span : Span}
    (hspan : m.start span.start) (hclose : m.close callee arguments.length span.stop)
    (h : placedExprs m arguments) :
    Blames R E (Typed.Stmt.Placed m.start) (do
      let (arguments, parameterTypes) ← checkCall callee arguments span
      return Typed.Stmt.call callee arguments parameterTypes span) :=
  (checkCall_covers c hspan hclose h).bind fun _ htyped => .pure ⟨hspan, htyped⟩

theorem expressionStmt_covers {e : Expr} (h : e.Placed m) :
    Blames R E (Typed.Stmt.Placed m.start) (do return Typed.Stmt.expression (← checkExpr e none)) :=
  (checkExpr_covers c e none h).bind fun _ htyped => .pure htyped

theorem checkExprStmt_covers {e : Expr} (h : e.Placed m) :
    Blames R E (Typed.Stmt.Placed m.start) (checkExprStmt e) := by
  cases e with
  | assign target value span => exact assignStmt_covers c h.1 h.2.1 h.2.2
  | call callee arguments span => exact callStmt_covers c h.1 h.2.1 h.2.2
  | literal | var | binary | unary | update | convert => exact expressionStmt_covers c h

end SimpleStatements

end Simple

section Statements

/-- What holds outside depends on the scope alone, which comes back at the end. -/
theorem within_blames {α : Type} {R R' : Checker → Prop} {E : Diagnostic → Prop} {P : α → Prop}
    {enter : Scope → Scope} {inner : Checking α} (henter : ∀ s, R s → R' { s with scope := enter s.scope })
    (hleave : ∀ s s' : Checker, R s → R { s' with scope := s.scope }) (h : Blames R' E P inner) :
    Blames R E P (within enter inner) := by
  intro s hs
  have hinner := h { s with scope := enter s.scope } (henter s hs)
  unfold within
  cases hrun : inner { s with scope := enter s.scope } with
  | ok a s' =>
    rw [hrun] at hinner
    exact ⟨hleave s s' hs, hinner.2⟩
  | error d s' =>
    rw [hrun] at hinner
    exact hinner

theorem within_covers {α : Type} {P : α → Prop} {enter : Scope → Scope} {inner : Checking α}
    (h : m.Covers P inner) : m.Covers P (within enter inner) :=
  within_blames (fun _ h => h) (fun _ _ h => h) h

mutual

theorem checkStmt_covers (s : Stmt) (h : s.Placed m) :
    m.Covers (Typed.Stmt.Placed m.start) (checkStmt s) := by
  match s, h with
  | .function name _ _ _ _ span, h => exact .throw h.1
  | .declare name declared value span, h => exact checkDeclare_covers .anywhere name declared h.1 h.2
  | .returnValue value span, h => exact checkReturn_covers .anywhere h.1 h.2 fun _ _ _ => h.1
  | .assign target value span, h => exact assignStmt_covers .anywhere h.1 h.2.1 h.2.2
  | .call callee arguments span, h => exact callStmt_covers .anywhere h.1 h.2.1 h.2.2
  | .expression value span, h => exact expressionStmt_covers .anywhere h.2
  | .breakLoop span, h => exact (checkJump_covers "break" fun _ _ _ => h).bind fun _ _ => .pure h
  | .continueLoop span, h => exact (checkJump_covers "continue" fun _ _ _ => h).bind fun _ _ => .pure h
  | .print value span, h =>
    rw [checkStmt]
    exact (checkExpr_covers .anywhere value none h.2).bind fun _ htyped => .pure ⟨h.1, htyped⟩
  | .block body span, h =>
    rw [checkStmt]
    exact (within_covers (checkStmts_covers body h.2)).bind fun _ hbody => .pure ⟨h.1, hbody⟩
  | .branch condition yes no span, ⟨hspan, hcondition, hyes, hno⟩ =>
    rw [checkStmt]
    refine (checkExpr_covers .anywhere condition none hcondition).bind fun condition hcondition => ?_
    refine (within_covers (checkStmt_covers yes hyes)).bind fun yes hyes => ?_
    refine (within_covers (checkStmt?_covers no hno)).bind fun no hno => ?_
    exact .pure ⟨hspan, hcondition, hyes, hno⟩
  | .whileLoop condition body span, ⟨hspan, hcondition, hbody⟩ =>
    rw [checkStmt]
    refine (checkExpr_covers .anywhere condition none hcondition).bind fun condition hcondition => ?_
    refine (within_covers (checkStmt_covers body hbody)).bind fun body hbody => .pure ?_
    refine ⟨hspan, trivial, fun t ht => ?_, hbody, trivial⟩
    cases ht
    exact hcondition
  | .forLoop start condition step body span, ⟨hspan, hstart, hcondition, hstep, hbody⟩ =>
    rw [checkStmt]
    refine within_covers ?_
    refine (checkStmt?_covers start hstart).bind fun start hstart => ?_
    refine (checkOption_covers fun e he => checkExpr_covers .anywhere e none (hcondition e he)).bind
      fun condition hcondition => ?_
    refine (within_covers (checkStmt_covers body hbody)).bind fun body hbody => ?_
    refine (checkOption_covers fun e he => checkExprStmt_covers .anywhere (hstep e he)).bind
      fun step hstep => .pure ⟨hspan, hstart, hcondition, hbody, ?_⟩
    exact Typed.placedStmt?_iff.mpr hstep

theorem checkStmt?_covers (s : Option Stmt) (h : placedStmt? m s) :
    m.Covers (Typed.placedStmt? m.start) (checkStmt? s) := by
  match s, h with
  | none, _ => exact .pure trivial
  | some s, h =>
    rw [checkStmt?]
    exact (checkStmt_covers s h).bind fun _ htyped => .pure htyped

theorem checkStmts_covers (ss : List Stmt) (h : placedStmts m ss) :
    m.Covers (Typed.placedStmts m.start) (checkStmts ss) := by
  match ss, h with
  | [], _ => exact .pure trivial
  | s :: ss, ⟨hs, hss⟩ =>
    rw [checkStmts]
    refine (checkStmt_covers s hs).bind fun _ htyped => ?_
    exact (checkStmts_covers ss hss).bind fun _ hrest => .pure ⟨htyped, hrest⟩

end

end Statements

section Bodies

theorem pass_covers (scope : Scope) (readTypes : Table NumType) (parameters : List Typed.Parameter)
    {body : List Stmt} (h : placedStmts m body) :
    m.Covers (Typed.placedStmts m.start) (pass scope readTypes parameters body) := by
  refine .bind (.modify fun _ _ => trivial) fun _ _ => within_covers ?_
  refine .bind (.forM fun p _ => .map (declareLocal_covers .anywhere _ _ _) fun _ _ => trivial)
    fun _ _ => ?_
  exact checkStmts_covers body h

/-- Rounds end as their last pass does. -/
theorem ends_of_rounds {E : Diagnostic → Prop} {P : List Typed.Stmt → Prop} {scope : Scope}
    {parameters : List Typed.Parameter} {body : List Stmt}
    (hpass : ∀ readTypes, Blames (fun _ => True) E P (pass scope readTypes parameters body))
    {readTypes : Table NumType} {s : Checker} {number passes : Nat} {storages : List (Table NumType)}
    {result : EStateM.Result Diagnostic Checker (List Typed.Stmt)}
    (h : Rounds scope parameters body readTypes s number passes storages result) :
    Ends E (fun typed _ => True ∧ P typed) result := by
  induction h with
  | @settled readTypes s _ _ _ h =>
    have hlast := hpass readTypes s trivial
    rw [h] at hlast
    exact hlast
  | @failed readTypes s _ _ _ h =>
    have hlast := hpass readTypes s trivial
    rwa [h] at hlast
  | again _ _ _ ih => exact ih

/-- The fuel lasts for all rounds, so that every failure is one of a pass. -/
theorem exists_rounds (function : Option String) (parameters : List Typed.Parameter) (body : List Stmt)
    (s : Checker) : ∃ passes storages,
      Rounds { function := function } parameters body .empty s 1 passes storages
        (checkBody { function := function } parameters body s) := by
  suffices h : ∃ passes storages result, passes ≤ passBound parameters body ∧
      Rounds { function := function } parameters body .empty s 1 passes storages result by
    obtain ⟨passes, storages, result, hle, h⟩ := h
    have hresult : checkBody { function := function } parameters body s = result := h.settle_eq hle
    exact ⟨passes, storages, hresult ▸ h⟩
  cases hp : pass { function := function } .empty parameters body s with
  | error d s₁ => exact ⟨1, [], _, Nat.le_add_left _ _, .failed hp⟩
  | ok typed s₁ =>
    have hrun := PassRun.of_pass hp
    have hsites := hrun.fills.atMost
    have hnone : (Table.empty : Table NumType).entries.length = 0 := rfl
    cases ha : s₁.storage.agrees .empty with
    | true => exact ⟨1, [s₁.storage], _, Nat.le_add_left _ _, .settled hp ha⟩
    | false =>
      obtain ⟨passes, storages, result, hr, hle, -⟩ := Rounds.exists_of_pass rfl
        (3 * s₁.storage.entries.length) hrun (fun _ _ h => nomatch h) (Nat.le_add_left _ _) 2
      refine ⟨passes + 1, s₁.storage :: storages, result, ?_, .again hp ha hr⟩
      unfold passBound
      omega

theorem checkBody_covers {E : Diagnostic → Prop} {P : List Typed.Stmt → Prop} {function : Option String}
    {parameters : List Typed.Parameter} {body : List Stmt} (h : ∀ readTypes,
      Blames (fun _ => True) E P (pass { function := function } readTypes parameters body)) :
    Blames (fun _ => True) E P (checkBody { function := function } parameters body) := by
  intro s _
  obtain ⟨_, _, hrounds⟩ := exists_rounds function parameters body s
  exact ends_of_rounds h hrounds

end Bodies

section Programs

variable {E : Diagnostic → Prop} (c : Allows m (fun _ => True) E)

section Functions

include c

theorem checkParameters_covers (function : String) (earlier : List String) {parameters : List Parameter}
    (h : ∀ p ∈ parameters, m.start p.span.start) :
    Blames (fun _ => True) E (fun _ => True) (checkParameters function earlier parameters) := by
  induction parameters generalizing earlier with
  | nil => exact .pure trivial
  | cons p ps ih =>
    have hrest := ih (p.name :: earlier) fun q hq => h q (List.mem_cons_of_mem _ hq)
    exact .ite (fun _ => .throw (c.admits (h p List.mem_cons_self) rfl)) fun _ => hrest

theorem declareFunction_covers {f : Function} (hspan : m.start f.span.start)
    (hparameters : ∀ p ∈ f.parameters, m.start p.span.start) :
    Blames (fun _ => True) E (fun _ => True) (declareFunction f) := by
  refine .bind .get fun s _ => .ite (fun _ => .throw (c.admits hspan rfl)) fun _ => ?_
  exact (checkParameters_covers c f.name [] hparameters).bind fun _ _ => setSignature_covers c _ _

theorem checkFunction_covers {P : List Typed.Stmt → Prop} {f : Function} (hspan : m.start f.span.start)
    (h : Blames (fun _ => True) E P (checkBody (.forFunction f.name) f.typedParameters f.body)) :
    Blames (fun _ => True) E (fun t => P t.body) (checkFunction f) := by
  refine (report_covers c _).bind fun _ _ => h.bind fun body hbody => ?_
  refine .bind .get fun s _ => (signatureOf_covers c f.name hspan).bind fun signature _ => ?_
  refine (setSignature_covers c _ _).bind fun _ _ => ?_
  split
  · exact .throw (c.admits hspan rfl)
  · exact .bind .get fun _ _ => .pure hbody

theorem checkEntry_covers {P : List Typed.Stmt → Prop} {body : List Stmt} (span : Span)
    (h : Blames (fun _ => True) E P (checkBody {} [] body)) :
    Blames (fun _ => True) E (fun t => P t.body) (checkEntry body span) := by
  refine .bind .get fun s _ => (report_covers c _).bind fun _ _ => h.bind fun typed htyped => ?_
  exact .bind .get fun _ _ => .pure htyped

end Functions

theorem checkFunctions_covers {fs : List Function} (h : ∀ f ∈ fs, f.Placed m) :
    m.Covers (fun ts => ∀ t ∈ ts, Typed.placedStmts m.start t.body) (checkFunctions fs) := by
  induction fs with
  | nil => exact .pure fun t ht => nomatch ht
  | cons f fs ih =>
    have hf := h f List.mem_cons_self
    have hbody := checkBody_covers fun readTypes =>
      pass_covers (.forFunction f.name) readTypes f.typedParameters hf.body
    refine (checkFunction_covers .anywhere hf.span hbody).bind fun t ht => ?_
    refine (ih fun g hg => h g (List.mem_cons_of_mem _ hg)).bind fun ts hts => ?_
    exact .pure (List.forall_mem_cons.mpr ⟨ht, hts⟩)

end Programs

end Checking

open Checking

/-- Every fault that the check of a program finds lies at a place of the program. Only the entry name has no
place there, so it must be sound. -/
theorem Program.check_ends {m : Marks} {p : Program} (h : p.Placed m) {options : Options}
    (hentry : Text.isWord options.entryName = true) :
    Ends m.Admits (fun typed _ => typed.Placed m.start) (p.check options) := by
  have hparts : m.Covers (fun typed => typed.Placed m.start) (do
      declareFunctions p.functions
      let functions ← checkFunctions p.functions
      let entry ← checkEntry p.body p.bodySpan
      return (⟨functions, entry⟩ : Typed.Program)) := by
    refine .bind (.forM fun f hf => ?_) fun _ _ => ?_
    · exact declareFunction_covers .anywhere (h.functions f hf).span (h.functions f hf).parameters
    refine (checkFunctions_covers h.functions).bind fun functions hfunctions => ?_
    have hbody := checkBody_covers fun readTypes => pass_covers {} readTypes [] h.body
    refine (checkEntry_covers .anywhere p.bodySpan hbody).bind fun entry hentry => ?_
    exact .pure ⟨hfunctions, hentry⟩
  have hstart : Ends m.Admits (fun s _ => Text.isWord s.options.entryName = true)
      ((get : Checking Checker) (.new options)) := hentry
  refine hstart.bind fun s s' _ hs => ?_
  have hword : ¬(!Text.isWord s.options.entryName) = true := by simp [hs]
  exact (Blames.ite (fun h => absurd h hword) (fun _ => hparts) s' trivial).imp fun _ _ _ h => h.2

end Numlet
