import Numlet.Check.Program
import Numlet.Proofs.Check.Coupled

/-!
Two checks of one body run alike, and so do two checks of one function or of the top-level statements.
-/
namespace Numlet.Checking

variable {K : String → Prop} {φ : Span → Span}

section Statements

theorem checkOption_alike {α α' β β' : Type} {f : α → α'} {g : β → β'} {check : α → Checking β}
    {check' : α' → Checking β'} (a : Option α)
    (h : ∀ x, a = some x → RunsAlike (Checker.Coupled K) (fun u v => v = g u) (check x) (check' (f x))) :
    RunsAlike (Checker.Coupled K) (fun u v => v = u.map g) (checkOption check a)
      (checkOption check' (a.map f)) := by
  cases a with
  | none => exact .pure rfl
  | some x =>
    refine .bind (h x rfl) ?_
    rintro typed _ rfl
    exact .pure rfl

theorem checkExpr?_alike (e : Option Expr) (hint : Option NumType)
    (hK : ∀ name ∈ usedCallsOfExpr? e, K name) :
    RunsAlike (Checker.Coupled K) (fun a b => b = a.map (·.relocated φ))
      (checkOption (checkExpr · hint) e)
      (checkOption (checkExpr · hint) (e.map (·.relocated φ))) := by
  refine checkOption_alike e ?_
  rintro x rfl
  exact checkExpr_alike x hint hK

theorem checkDeclare_alike (name : String) (declared : Option NumType) (value : Option Expr)
    (span : Span) (hK : ∀ name ∈ usedCallsOfExpr? value, K name) :
    RunsAlike (Checker.Coupled K) (fun a b => b = a.relocated φ)
      (checkDeclare name declared value span)
      (checkDeclare name declared (value.map (·.relocated φ)) (φ span)) := by
  unfold checkDeclare
  refine .bind (checkExpr?_alike value declared hK) ?_
  rintro typed _ rfl
  have hend : ∀ (type : NumType) (fixed : Bool),
      RunsAlike (Checker.Coupled K) (fun a b => b = Typed.Stmt.relocated φ a)
        (do
          let slot ← declareLocal name type fixed
          return Typed.Stmt.declare slot typed type span)
        (do
          let slot ← declareLocal name type fixed
          return Typed.Stmt.declare slot (typed.map (·.relocated φ)) type (φ span)) := by
    intro type fixed
    refine .bind (declareLocal_alike name type fixed) ?_
    rintro _ slot rfl
    exact .pure rfl
  cases declared with
  | none =>
    cases typed with
    | none => exact hend _ _
    | some typed =>
      simp only [Option.map_some, Typed.Expr.type_relocated]
      exact hend _ _
  | some type =>
    cases typed with
    | none => exact hend _ _
    | some typed =>
      simp only [Option.map_some, Typed.Expr.type_relocated]
      exact .ite Iff.rfl (.throw rfl) (hend _ _)

/-- The last steps of a return with a value: the result of the function is widened, unless it is fixed. -/
theorem returnEnd_alike {function : String} (hK : K function) (result : Option NumType)
    (value : Typed.Stmt) :
    RunsAlike (Checker.Coupled K) (fun a b => b = Typed.Stmt.relocated φ a)
      (do
        if let some current := (← get).signatures.find? function then
          setSignature function { current with result := result }
        return value)
      (do
        if let some current := (← get).signatures.find? function then
          setSignature function { current with result := result }
        return value.relocated φ) := by
  refine .bind .get fun s t hst => ?_
  obtain ⟨hs, ht⟩ | ⟨current, current', hs, ht, -⟩ := hst.signature_cases function
  · rw [hs, ht]
    exact .pure rfl
  · rw [hs, ht]
    have hagrees := hst.agrees function _ _ hK hs ht
    exact .bind (setSignature_alike function (hagrees.withResult result)) fun _ _ _ => .pure rfl

theorem checkReturn_alike (value : Option Expr) (span : Span)
    (hK : ∀ name ∈ usedCallsOfExpr? value, K name) :
    RunsAlike (Checker.Coupled K) (fun a b => b = a.relocated φ) (checkReturn value span)
      (checkReturn (value.map (·.relocated φ)) (φ span)) := by
  unfold checkReturn
  refine .bind .get fun s t hst => ?_
  rw [hst.scope]
  cases hfunction : s.scope.function with
  | none => exact .throw rfl
  | some function =>
    have hKf := hst.function function hfunction
    refine .bind (signatureOf_alike function _ _) fun signature signature' hs => ?_
    have hagrees := hs.2 hKf
    cases value with
    | none =>
      simp only [Option.map_none, hagrees.result]
      cases signature.result with
      | some result => exact .throw rfl
      | none =>
        refine .bind (P := fun _ _ => True) ?_ fun _ _ _ => .pure rfl
        exact .modify fun s t h => ⟨h.options, h.storage, h.readTypes, h.declarations, rfl,
          h.valuedReturn, h.scope, h.function, h.parameters, h.agrees⟩
    | some value =>
      simp only [Option.map_some, hagrees.result]
      refine .bind (checkExpr_alike value _ hK) ?_
      rintro typed _ rfl
      refine .bind .get fun s₁ t₁ hst₁ => ?_
      simp only [Typed.Expr.type_relocated, Typed.Expr.span_relocated, hagrees.resultFixed]
      refine .ite (by rw [hst₁.bareReturn]) (.throw rfl) ?_
      refine .bind (P := fun _ _ => True) ?_ fun _ _ _ => ?_
      · exact .modify fun s t h => ⟨h.options, h.storage, h.readTypes, h.declarations, h.bareReturn,
          rfl, h.scope, h.function, h.parameters, h.agrees⟩
      · refine .ite Iff.rfl (.ite Iff.rfl (.throw rfl) (.pure rfl)) ?_
        exact returnEnd_alike hKf _ (.returnValue (some typed) span)

theorem checkCall_alike (callee : String) (arguments : List Expr) (span : Span)
    (hK : ∀ name ∈ usedCallsOfExprs arguments, K name) :
    RunsAlike (Checker.Coupled K) (fun a b => b = (Typed.relocatedExprs φ a.1, a.2))
      (checkCall callee arguments span)
      (checkCall callee (relocatedExprs φ arguments) (φ span)) :=
  callWith_alike callee arguments _ _ fun types => checkArguments_alike callee arguments types hK

theorem assignStmt_alike (target value : Expr) (span : Span) (hK : ∀ name ∈ value.usedCalls, K name) :
    RunsAlike (Checker.Coupled K) (fun a b => b = Typed.Stmt.relocated φ a)
      (do
        let (slot, value, _) ← assignTo target (checkExpr value)
        return Typed.Stmt.assign slot value span)
      (do
        let (slot, value, _) ← assignTo (target.relocated φ) (checkExpr (value.relocated φ))
        return Typed.Stmt.assign slot value (φ span)) := by
  refine .bind (assignTo_alike target fun hint => checkExpr_alike value hint hK) ?_
  rintro ⟨slot, typed, type⟩ _ rfl
  exact .pure rfl

theorem callStmt_alike (callee : String) (arguments : List Expr) (span : Span)
    (hK : ∀ name ∈ usedCallsOfExprs arguments, K name) :
    RunsAlike (Checker.Coupled K) (fun a b => b = Typed.Stmt.relocated φ a)
      (do
        let (arguments, parameterTypes) ← checkCall callee arguments span
        return Typed.Stmt.call callee arguments parameterTypes span)
      (do
        let (arguments, parameterTypes) ← checkCall callee (relocatedExprs φ arguments) (φ span)
        return Typed.Stmt.call callee arguments parameterTypes (φ span)) := by
  refine .bind (checkCall_alike callee arguments span hK) ?_
  rintro ⟨typed, types⟩ _ rfl
  exact .pure rfl

theorem expressionStmt_alike (e : Expr) (hK : ∀ name ∈ e.usedCalls, K name) :
    RunsAlike (Checker.Coupled K) (fun a b => b = Typed.Stmt.relocated φ a)
      (do return Typed.Stmt.expression (← checkExpr e none))
      (do return Typed.Stmt.expression (← checkExpr (e.relocated φ) none)) := by
  refine .bind (checkExpr_alike e none hK) ?_
  rintro typed _ rfl
  exact .pure rfl

theorem checkExprStmt_alike (e : Expr) (hK : ∀ name ∈ e.usedAsStmt, K name) :
    RunsAlike (Checker.Coupled K) (fun a b => b = a.relocated φ) (checkExprStmt e)
      (checkExprStmt (e.relocated φ)) := by
  match e with
  | .assign target value span => exact assignStmt_alike target value span hK
  | .call callee arguments span => exact callStmt_alike callee arguments span hK
  | .literal .. | .var .. | .update .. | .unary .. | .binary .. | .convert .. =>
    exact expressionStmt_alike _ hK

theorem checkJump_alike (construct : String) (span span' : Span) :
    RunsAlike (Checker.Coupled K) (fun _ _ => True) (checkJump construct span)
      (checkJump construct span') := by
  unfold checkJump
  refine .bind .get fun s t hst => ?_
  rw [hst.scope]
  exact .ite Iff.rfl (.throw rfl) (.pure trivial)

theorem inner_alike {α β : Type} {Q : α → β → Prop} {m : Checking α} {n : Checking β}
    (h : RunsAlike (Checker.Coupled K) Q m n) :
    RunsAlike (Checker.Coupled K) Q (within id m) (within id n) :=
  within_alike (fun _ _ => .inl) h

mutual

theorem checkStmt_alike (s : Stmt) (hK : ∀ name ∈ s.usedCalls, K name) :
    RunsAlike (Checker.Coupled K) (fun a b => b = a.relocated φ) (checkStmt s)
      (checkStmt (s.relocated φ)) := by
  match s with
  | .function name parameters result body bodySpan span => exact .throw rfl
  | .declare name declared value span => exact checkDeclare_alike name declared value span hK
  | .returnValue value span => exact checkReturn_alike value span hK
  | .assign target value span => exact assignStmt_alike target value span hK
  | .call callee arguments span => exact callStmt_alike callee arguments span hK
  | .expression value span => exact expressionStmt_alike value hK
  | .breakLoop span => exact .bind (checkJump_alike "break" _ _) fun _ _ _ => .pure rfl
  | .continueLoop span => exact .bind (checkJump_alike "continue" _ _) fun _ _ _ => .pure rfl
  | .print value span =>
    simp only [Stmt.relocated, checkStmt]
    refine .bind (checkExpr_alike value none hK) ?_
    rintro typed _ rfl
    exact .pure rfl
  | .block body span =>
    simp only [Stmt.relocated, checkStmt]
    refine .bind (inner_alike (checkStmts_alike body hK)) ?_
    rintro typed _ rfl
    exact .pure rfl
  | .branch condition yes no span =>
    simp only [Stmt.relocated, checkStmt]
    simp only [Stmt.usedCalls, List.forall_mem_append] at hK
    obtain ⟨⟨hcondition, hyes⟩, hno⟩ := hK
    refine .bind (checkExpr_alike condition none hcondition) ?_
    rintro condition _ rfl
    refine .bind (inner_alike (checkStmt_alike yes hyes)) ?_
    rintro yes _ rfl
    refine .bind (inner_alike (checkStmt?_alike no hno)) ?_
    rintro no _ rfl
    exact .pure rfl
  | .whileLoop condition body span =>
    simp only [Stmt.relocated, checkStmt]
    simp only [Stmt.usedCalls, List.forall_mem_append] at hK
    obtain ⟨hcondition, hbody⟩ := hK
    refine .bind (checkExpr_alike condition none hcondition) ?_
    rintro condition _ rfl
    refine .bind (within_alike (fun _ _ => .inl) (checkStmt_alike body hbody)) ?_
    rintro body _ rfl
    exact .pure rfl
  | .forLoop start condition step body span =>
    simp only [Stmt.relocated, checkStmt]
    simp only [Stmt.usedCalls, List.forall_mem_append] at hK
    obtain ⟨⟨⟨hstart, hcondition⟩, hstep⟩, hbody⟩ := hK
    refine inner_alike (.bind (checkStmt?_alike start hstart) ?_)
    rintro start _ rfl
    refine .bind (checkExpr?_alike condition none hcondition) ?_
    rintro condition _ rfl
    refine .bind (within_alike (fun _ _ => .inl) (checkStmt_alike body hbody)) ?_
    rintro body _ rfl
    have hsteps : RunsAlike (Checker.Coupled K) (fun a b => b = a.map (·.relocated φ))
        (checkOption checkExprStmt step)
        (checkOption checkExprStmt (step.map (·.relocated φ))) := by
      refine checkOption_alike step ?_
      rintro e rfl
      exact checkExprStmt_alike e hstep
    refine .bind hsteps ?_
    rintro step _ rfl
    refine .pure ?_
    cases step <;> rfl

theorem checkStmt?_alike (s : Option Stmt) (hK : ∀ name ∈ usedCallsOfStmt? s, K name) :
    RunsAlike (Checker.Coupled K) (fun a b => b = Typed.relocatedStmt? φ a) (checkStmt? s)
      (checkStmt? (relocatedStmt? φ s)) := by
  match s with
  | none => exact .pure rfl
  | some s =>
    refine .bind (checkStmt_alike s hK) ?_
    rintro typed _ rfl
    exact .pure rfl

theorem checkStmts_alike (ss : List Stmt) (hK : ∀ name ∈ usedCallsOfStmts ss, K name) :
    RunsAlike (Checker.Coupled K) (fun a b => b = Typed.relocatedStmts φ a) (checkStmts ss)
      (checkStmts (relocatedStmts φ ss)) := by
  match ss with
  | [] => exact .pure rfl
  | s :: ss =>
    have hK' := List.forall_mem_append.mp hK
    refine .bind (checkStmt_alike s hK'.1) ?_
    rintro typed _ rfl
    refine .bind (checkStmts_alike ss hK'.2) ?_
    rintro typeds _ rfl
    exact .pure rfl

end

end Statements

section Bodies

theorem declareParameters_alike (parameters : List Typed.Parameter) :
    RunsAlike (Checker.Coupled K) (fun _ _ => True) (declareParameters parameters)
      (declareParameters parameters) := by
  induction parameters with
  | nil => exact .pure trivial
  | cons p ps ih =>
    refine .bind (P := fun _ _ => True) ?_ fun _ _ _ => ih
    exact .map (declareLocal_alike p.name p.type true) fun _ _ _ => trivial

variable {scope : Scope} (hscope : ∀ name, scope.function = some name → K name)
  (parameters : List Typed.Parameter) (body : List Stmt)
  (hK : ∀ name ∈ usedCallsOfStmts body, K name)

include hscope hK

theorem pass_alike (readTypes : Table NumType) :
    RunsAlike (Checker.Coupled K) (fun a b => b = Typed.relocatedStmts φ a)
      (pass scope readTypes parameters body)
      (pass scope readTypes parameters (relocatedStmts φ body)) := by
  unfold pass
  refine .bind (P := fun _ _ => True) ?_ fun _ _ _ => ?_
  · exact .modify fun s t h => ⟨h.options, rfl, rfl, rfl, rfl, rfl, h.scope, h.function,
      h.parameters, h.agrees⟩
  · refine within_alike (fun _ name hname => .inr (hscope name hname)) ?_
    exact .bind (declareParameters_alike parameters) fun _ _ _ => checkStmts_alike body hK

theorem settle_alike (fuel number : Nat) (readTypes : Table NumType) :
    RunsAlike (Checker.Coupled K) (fun a b => b = Typed.relocatedStmts φ a)
      (settle scope parameters body fuel number readTypes)
      (settle scope parameters (relocatedStmts φ body) fuel number readTypes) := by
  induction fuel generalizing number readTypes with
  | zero => exact .throw rfl
  | succ fuel ih =>
    unfold settle
    refine .bind (pass_alike hscope parameters body hK readTypes) ?_
    rintro typed _ rfl
    refine .bind .get fun s t hst => ?_
    rw [hst.storage]
    exact .ite Iff.rfl (.bind (report_alike _ _) fun _ _ _ => .pure rfl) (ih _ _)

theorem checkBody_alike :
    RunsAlike (Checker.Coupled K) (fun a b => b = Typed.relocatedStmts φ a)
      (checkBody scope parameters body)
      (checkBody scope parameters (relocatedStmts φ body)) := by
  unfold checkBody
  rw [passBound, passBound, sitesOfStmts_relocated]
  exact settle_alike hscope parameters body hK _ _ _

end Bodies

section Functions

theorem checkFunction_alike (f : Function) (hf : K f.name)
    (hK : ∀ name ∈ usedCallsOfStmts f.body, K name) :
    RunsAlike (Checker.Coupled K) (fun a b => b = a.relocated φ) (checkFunction f)
      (checkFunction (f.relocated φ)) := by
  have hparameters : (f.relocated φ).parameters.map (fun p => (⟨p.name, p.type⟩ : Typed.Parameter)) =
      f.parameters.map fun p => ⟨p.name, p.type⟩ := by
    rw [Function.relocated, List.map_map]
    rfl
  unfold checkFunction
  rw [hparameters]
  refine .bind (report_alike _ _) fun _ _ _ => ?_
  have hscope : ∀ name, (Scope.forFunction f.name).function = some name → K name := by
    rintro _ ⟨⟩
    exact hf
  refine .bind (checkBody_alike hscope _ f.body hK) ?_
  rintro typed _ rfl
  refine .bind .get fun s t hst => ?_
  refine .bind (signatureOf_alike f.name _ _) fun signature signature' hs => ?_
  have hagrees := hs.2 hf
  have hchecked : Signature.Agrees { signature with checked := true }
      { signature' with checked := true } :=
    ⟨hagrees.parameters, hagrees.result, hagrees.resultFixed, by simp⟩
  refine .bind (setSignature_alike f.name hchecked) fun _ _ _ => ?_
  rw [hst.valuedReturn, hagrees.result]
  have hend : ∀ (parameters : List Typed.Parameter) (result : Option NumType),
      RunsAlike (Checker.Coupled K) (fun a b => b = Typed.Function.relocated φ a)
        (do return ⟨f.name, parameters, result, typed, f.bodySpan, (← get).storage, f.span⟩)
        (do return ⟨f.name, parameters, result, Typed.relocatedStmts φ typed, φ f.bodySpan,
          (← get).storage, φ f.span⟩) := by
    intro parameters result
    refine .bind .get fun s₁ t₁ hst₁ => .pure ?_
    rw [hst₁.storage]
    rfl
  rw [show (f.relocated φ).result = f.result from rfl]
  -- The one way to fail here is a result that was pinned and that no return gave.
  split
  · exact .throw rfl
  · exact hend _ _

theorem checkEntry_alike (body : List Stmt) (span : Span)
    (hK : ∀ name ∈ usedCallsOfStmts body, K name) :
    RunsAlike (Checker.Coupled K) (fun a b => b = a.relocated φ) (checkEntry body span)
      (checkEntry (relocatedStmts φ body) (φ span)) := by
  unfold checkEntry
  refine .bind .get fun s t hst => ?_
  rw [hst.options]
  refine .bind (report_alike _ _) fun _ _ _ => ?_
  refine .bind (checkBody_alike (fun _ h => by cases h) [] body hK) ?_
  rintro typed _ rfl
  refine .bind .get fun s₁ t₁ hst₁ => .pure ?_
  rw [hst₁.storage]
  rfl

theorem checkParameters_alike (function : String) (earlier : List String)
    (parameters : List Parameter) :
    RunsAlike (Checker.Coupled K) (fun _ _ => True) (checkParameters function earlier parameters)
      (checkParameters function earlier (parameters.map (·.relocated φ))) := by
  induction parameters generalizing earlier with
  | nil => exact .pure trivial
  | cons p ps ih => exact .ite Iff.rfl (.throw rfl) (ih _)

theorem declareFunction_alike (f : Function) :
    RunsAlike (Checker.Coupled K) (fun _ _ => True) (declareFunction f)
      (declareFunction (f.relocated φ)) := by
  unfold declareFunction
  refine .bind .get fun s t hst => ?_
  have hcontains : t.signatures.contains f.name = s.signatures.contains f.name := by
    have hp := congrArg Option.isSome (hst.parameters f.name)
    rwa [Option.isSome_map, Option.isSome_map] at hp
  have htypes : (f.relocated φ).parameters.map Parameter.type = f.parameters.map Parameter.type := by
    rw [Function.relocated, List.map_map]
    rfl
  rw [show (f.relocated φ).name = f.name from rfl, hcontains, hst.options, htypes]
  refine .ite Iff.rfl (.throw rfl) ?_
  exact .bind (checkParameters_alike f.name [] f.parameters) fun _ _ _ =>
    setSignature_alike f.name ⟨rfl, rfl, rfl, rfl⟩

theorem declareFunctions_alike (fs : List Function) :
    RunsAlike (Checker.Coupled K) (fun _ _ => True) (declareFunctions fs)
      (declareFunctions (fs.map (·.relocated φ))) := by
  induction fs with
  | nil => exact .pure trivial
  | cons f fs ih => exact .bind (declareFunction_alike f) fun _ _ _ => ih

theorem checkFunctions_alike (fs : List Function) (hfs : ∀ f ∈ fs, K f.name)
    (hK : ∀ f ∈ fs, ∀ name ∈ usedCallsOfStmts f.body, K name) :
    RunsAlike (Checker.Coupled K) (fun a b => b = a.map (·.relocated φ)) (checkFunctions fs)
      (checkFunctions (fs.map (·.relocated φ))) := by
  induction fs with
  | nil => exact .pure rfl
  | cons f fs ih =>
    rw [List.forall_mem_cons] at hfs hK
    refine .bind (checkFunction_alike f hfs.1 hK.1) ?_
    rintro typed _ rfl
    refine .bind (ih hfs.2 hK.2) ?_
    rintro typeds _ rfl
    exact .pure rfl

/-- A program is checked in the same way wherever its parts stand. -/
theorem checkProgram_alike (p : Program) :
    RunsAlike (Checker.Coupled fun _ => True) (fun a b => b = a.relocated φ) (checkProgram p)
      (checkProgram (p.relocated φ)) := by
  unfold checkProgram
  refine .bind .get fun s t hst => ?_
  rw [hst.options]
  refine .ite Iff.rfl (.throw rfl) ?_
  refine .bind (declareFunctions_alike p.functions) fun _ _ _ => ?_
  refine .bind (checkFunctions_alike p.functions (fun _ _ => trivial) fun _ _ _ _ => trivial) ?_
  rintro functions _ rfl
  refine .bind (checkEntry_alike p.body p.bodySpan fun _ _ => trivial) ?_
  rintro entry _ rfl
  exact .pure rfl

end Functions

end Numlet.Checking
