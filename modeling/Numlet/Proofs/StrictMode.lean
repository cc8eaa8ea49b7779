import Numlet.Compile
import Numlet.Proofs.Check.Run

/-!
The check with and without declarations by assignment. The two run alike up to the first such declaration;
there the strict one stops, and the other goes on.
-/
namespace Numlet

/-- The name that an assignment goes to, with its place. -/
def Expr.target? : Expr → Option (String × Position)
  | .var name span => some (name, span.start)
  | _ => none

mutual

/-- The targets of the assignments in an expression. -/
def Expr.targets : Expr → List (String × Position)
  | .literal _ _ | .var _ _ | .update _ _ _ _ => []
  | .binary _ left right _ => left.targets ++ right.targets
  | .unary _ operand _ | .convert operand _ _ _ => operand.targets
  | .assign target value _ => target.target?.toList ++ value.targets
  | .call _ arguments _ => targetsOfExprs arguments

def targetsOfExprs : List Expr → List (String × Position)
  | [] => []
  | e :: es => e.targets ++ targetsOfExprs es

end

def targetsOfExpr? (e : Option Expr) : List (String × Position) := (e.map Expr.targets).getD []

mutual

/-- The targets of the assignments in a statement. -/
def Stmt.targets : Stmt → List (String × Position)
  | .function _ _ _ body _ _ | .block body _ => targetsOfStmts body
  | .declare _ _ value _ | .returnValue value _ => targetsOfExpr? value
  | .assign target value _ => target.target?.toList ++ value.targets
  | .branch condition yes no _ => condition.targets ++ yes.targets ++ targetsOfStmt? no
  | .whileLoop condition body _ => condition.targets ++ body.targets
  | .forLoop start condition step body _ =>
    targetsOfStmt? start ++ targetsOfExpr? condition ++ body.targets ++ targetsOfExpr? step
  | .breakLoop _ | .continueLoop _ => []
  | .print value _ | .expression value _ => value.targets
  | .call _ arguments _ => targetsOfExprs arguments

def targetsOfStmt? : Option Stmt → List (String × Position)
  | none => []
  | some stmt => stmt.targets

def targetsOfStmts : List Stmt → List (String × Position)
  | [] => []
  | stmt :: stmts => stmt.targets ++ targetsOfStmts stmts

end

def Program.targets (p : Program) : List (String × Position) :=
  p.functions.flatMap (fun f => targetsOfStmts f.body) ++ targetsOfStmts p.body

/-- The name and its place, if a name is declared by an assignment to it. -/
def Event.declared? : Event → Option (String × Position)
  | .autoDeclared name _ place => some (name, place)
  | _ => none

namespace Checker

/-- The first declaration by assignment that has been reported. -/
def firstDeclared? (s : Checker) : Option (String × Position) := s.log.toList.findSome? Event.declared?

/-- The same checker without declarations by assignment. -/
def strict (s : Checker) : Checker := { s with options := { s.options with autoDeclare := false } }

/-- No name has been declared by an assignment, though it could have been. -/
structure Quiet (s : Checker) : Prop where
  on : s.options.autoDeclare = true
  none : s.firstDeclared? = none

theorem firstDeclared?_report (s : Checker) (event : Event) :
    firstDeclared? { s with log := s.log.push event } = s.firstDeclared?.or event.declared? := by
  simp [firstDeclared?, List.findSome?_append]

theorem firstDeclared?_report_of_some (s : Checker) (event : Event) {first : String × Position}
    (h : s.firstDeclared? = some first) :
    firstDeclared? { s with log := s.log.push event } = some first := by
  rw [firstDeclared?_report, h]
  rfl

end Checker

namespace Checking

variable {α β : Type} {T : String × Position → Prop}

/-- A result, and the result of the strict run beside it. -/
inductive Agrees (T : String × Position → Prop) :
    EStateM.Result Diagnostic Checker α → EStateM.Result Diagnostic Checker α → Prop
  | ok {a : α} {s : Checker} (h : s.Quiet) : Agrees T (.ok a s) (.ok a s.strict)
  | error {d : Diagnostic} {s t : Checker} (h : s.firstDeclared? = none) :
      Agrees T (.error d s) (.error d t)
  | stopped {x : EStateM.Result Diagnostic Checker α} {t : Checker} {name : String} {place : Position}
      (h : (finalState x).firstDeclared? = some (name, place)) (ht : T (name, place)) :
      Agrees T x (.error ⟨.undeclaredName name, place⟩ t)

/-- A computation whose strict run stops at its first declaration by assignment, and only there. It assigns
to the targets in `T`. -/
structure Follows (T : String × Position → Prop) (m : Checking α) : Prop where
  keeps (s : Checker) (first : String × Position) (h : s.firstDeclared? = some first) :
    (finalState (m s)).firstDeclared? = some first
  agrees (s : Checker) (h : s.Quiet) : Agrees T (m s) (m s.strict)

namespace Follows

variable {m n : Checking α}

theorem pure (a : α) : Follows T (pure a : Checking α) := ⟨fun _ _ h => h, fun _ h => .ok h⟩

theorem throw (d : Diagnostic) : Follows T (throw d : Checking α) :=
  ⟨fun _ _ h => h, fun _ h => .error h.none⟩

theorem bind {k : α → Checking β} (h : Follows T m) (hk : ∀ a, Follows T (k a)) : Follows T (m >>= k) where
  keeps s first hs := by
    have hm := h.keeps s first hs
    cases hrun : m s with
    | ok a s' =>
      rw [hrun] at hm
      rw [bind_of_ok hrun]
      exact (hk a).keeps s' first hm
    | error d s' =>
      rw [hrun] at hm
      rw [bind_of_error hrun]
      exact hm
  agrees s hs := by
    have hm := h.agrees s hs
    generalize hx : m s = x at hm
    generalize hy : m s.strict = y at hm
    cases hm with
    | ok hs' =>
      rw [bind_of_ok hx, bind_of_ok hy]
      exact (hk _).agrees _ hs'
    | error hs' =>
      rw [bind_of_error hx, bind_of_error hy]
      exact .error hs'
    | stopped hfirst ht =>
      -- The strict run is over, whatever the other one still does.
      rw [bind_of_error hy]
      cases x with
      | ok a s' =>
        rw [bind_of_ok hx]
        exact .stopped ((hk a).keeps s' _ hfirst) ht
      | error d s' =>
        rw [bind_of_error hx]
        exact .stopped hfirst ht

/-- A look at the state, but not at the option. -/
theorem get {k : Checker → Checking β} (h : ∀ s, Follows T (k s)) (hk : ∀ s, k s.strict = k s) :
    Follows T (get >>= k) where
  keeps s first hs := (h s).keeps s first hs
  agrees s hs := by
    change Agrees T (k s s) (k s.strict s.strict)
    rw [hk]
    exact (h s).agrees s hs

/-- A step that touches neither the option nor the log. -/
theorem modify {f : Checker → Checker}
    (h : ∀ s, (f s).log = s.log ∧ (f s).options = s.options ∧ f s.strict = (f s).strict) :
    Follows T (modify f) where
  keeps s first hs := by
    change Checker.firstDeclared? (f s) = _
    rwa [Checker.firstDeclared?, (h s).1]
  agrees s hs := by
    change Agrees T (.ok () (f s)) (.ok () (f s.strict))
    rw [(h s).2.2]
    refine .ok ⟨?_, ?_⟩
    · rw [(h s).2.1]
      exact hs.on
    · rw [Checker.firstDeclared?, (h s).1]
      exact hs.none

theorem ite {c : Prop} [Decidable c] (hm : Follows T m) (hn : Follows T n) :
    Follows T (if c then m else n) := by
  split
  · exact hm
  · exact hn

theorem map {f : α → β} (h : Follows T m) : Follows T (f <$> m) := h.bind fun a => pure (f a)

theorem forM {f : β → Checking PUnit} {xs : List β} (h : ∀ x ∈ xs, Follows T (f x)) :
    Follows T (xs.forM f) := by
  induction xs with
  | nil => exact pure _
  | cons x xs ih =>
    obtain ⟨hx, hxs⟩ := List.forall_mem_cons.mp h
    exact hx.bind fun _ => ih hxs

end Follows

section Steps

theorem report_follows {event : Event} (h : event.declared? = none) : Follows T (report event) where
  keeps s first hs := s.firstDeclared?_report_of_some event hs
  agrees s hs := by
    refine .ok ⟨hs.on, ?_⟩
    rw [Checker.firstDeclared?_report, hs.none, h]
    rfl

theorem within_follows {enter : Scope → Scope} {m : Checking α} (h : Follows T m) :
    Follows T (within enter m) where
  keeps s first hs := by
    have hm := h.keeps { s with scope := enter s.scope } first hs
    unfold within
    cases hrun : m { s with scope := enter s.scope } with
    | ok a s' =>
      rw [hrun] at hm
      exact hm
    | error d s' =>
      rw [hrun] at hm
      exact hm
  agrees s hs := by
    have hm := h.agrees { s with scope := enter s.scope } ⟨hs.on, hs.none⟩
    have hstrict : { s.strict with scope := enter s.strict.scope } =
        Checker.strict { s with scope := enter s.scope } := rfl
    unfold within
    rw [hstrict]
    generalize m { s with scope := enter s.scope } = x at hm
    generalize m (Checker.strict { s with scope := enter s.scope }) = y at hm
    cases hm with
    | ok hs' => exact .ok ⟨hs'.on, hs'.none⟩
    | error hs' => exact .error hs'
    | stopped hfirst ht =>
      cases x with
      | ok a s' => exact .stopped hfirst ht
      | error d s' => exact .stopped hfirst ht

theorem setSignature_follows (name : String) (signature : Signature) :
    Follows T (setSignature name signature) :=
  .modify fun _ => ⟨rfl, rfl, rfl⟩

theorem record_follows (slot : String) (type : NumType) : Follows T (record slot type) := by
  refine .get (fun s => ?_) fun _ => rfl
  have hend (widened : NumType) :
      Follows T (modify fun s => { s with storage := s.storage.insert slot widened } : Checking Unit) :=
    .modify fun _ => ⟨rfl, rfl, rfl⟩
  exact .ite ((report_follows rfl).bind fun _ => hend _) (hend _)

theorem declareLocal_follows (name : String) (type : NumType) (fixed : Bool) :
    Follows T (declareLocal name type fixed) := by
  refine .get (fun s => ?_) fun _ => rfl
  refine .bind (.modify fun _ => ⟨rfl, rfl, rfl⟩) fun _ => ?_
  exact (record_follows _ _).bind fun _ => .pure _

theorem lookup?_follows (name : String) : Follows T (lookup? name) :=
  .get (fun _ => .pure _) fun _ => rfl

theorem readType_follows (slot : String) (type : NumType) : Follows T (readType slot type) :=
  .get (fun _ => .pure _) fun _ => rfl

theorem variableOf_follows (name : String) (span : Span) : Follows T (variableOf name span) := by
  refine (lookup?_follows name).bind fun v => ?_
  cases v with
  | none => exact .throw _
  | some v => exact .pure _

theorem signatureOf_follows (name : String) (span : Span) : Follows T (signatureOf name span) := by
  refine .get (fun s => ?_) fun _ => rfl
  cases s.signatures.find? name with
  | none => exact .throw _
  | some signature => exact .pure _

theorem checkOption_follows {check : α → Checking β} {value : Option α}
    (h : ∀ a ∈ value, Follows T (check a)) : Follows T (checkOption check value) := by
  cases value with
  | none => exact .pure _
  | some a => exact (h a rfl).bind fun _ => .pure _

end Steps

section Expressions

/-- Here the two runs part. -/
theorem declareAssigned_follows {name : String} {span : Span} (h : T (name, span.start))
    (value : Typed.Expr) : Follows T (do
      if (← get).options.autoDeclare then
        report (.autoDeclared name value.type span.start)
        let slot ← declareLocal name value.type false
        return (slot, value, value.type)
      else throw (.undeclared name span) : Checking (String × Typed.Expr × NumType)) := by
  have hrest : Follows T (do
      let slot ← declareLocal name value.type false
      return (slot, value, value.type) : Checking (String × Typed.Expr × NumType)) :=
    (declareLocal_follows _ _ _).bind fun _ => .pure _
  constructor
  · intro s first hs
    change (finalState ((if s.options.autoDeclare = true then _ else _ : Checking _) s)).firstDeclared? = _
    split
    · exact hrest.keeps _ first (s.firstDeclared?_report_of_some _ hs)
    · exact hs
  · intro s hs
    change Agrees T ((if s.options.autoDeclare = true then _ else _ : Checking _) s) (.error _ _)
    rw [if_pos hs.on]
    refine .stopped (hrest.keeps _ _ ?_) h
    rw [Checker.firstDeclared?_report, hs.none]
    rfl

theorem assignTo_follows {check : Option NumType → Checking Typed.Expr} {target : Expr}
    (htarget : ∀ x ∈ target.target?, T x) (h : ∀ hint, Follows T (check hint)) :
    Follows T (assignTo target check) := by
  cases target with
  | var name span =>
    refine (lookup?_follows name).bind fun _ => (h _).bind fun value => ?_
    refine (lookup?_follows name).bind fun v => ?_
    cases v with
    | none => exact declareAssigned_follows (htarget _ rfl) value
    | some v =>
      dsimp only
      split
      · exact .throw _
      · next type _ =>
        refine .bind (.modify fun s => ⟨rfl, rfl, rfl⟩) fun _ => ?_
        exact (record_follows _ _).bind fun _ => .pure _
  | literal | binary | unary | update | assign | convert | call => exact .throw _

theorem checkArity_follows (callee : String) (arguments : List Expr) (expected : Nat) (span : Span) :
    Follows T (checkArity callee arguments expected span) := by
  refine .ite (.throw _) ?_
  split
  · exact .pure _
  · exact .throw _

theorem callWith_follows {check : List NumType → Checking (List Typed.Expr)} (callee : String)
    (arguments : List Expr) (span : Span) (h : ∀ types, Follows T (check types)) :
    Follows T (callWith callee arguments span check) := by
  refine (signatureOf_follows callee span).bind fun signature => ?_
  exact (checkArity_follows ..).bind fun _ => (h _).bind fun _ => .pure _

theorem callResult_follows (callee : String) (span : Span) : Follows T (callResult callee span) := by
  refine (signatureOf_follows callee span).bind fun signature => .ite ?_ ?_
  · cases signature.result with
    | none => exact .throw _
    | some type => exact .pure _
  · exact (report_follows rfl).bind fun _ => (setSignature_follows _ _).bind fun _ => .pure _

theorem binaryTypes_follows (op : BinaryOp) (left right : NumType) (span : Span) :
    Follows T (binaryTypes op left right span) :=
  .ite (.pure _) (.ite (.throw _) (.pure _))

/-- An assignment, with the run of its value. -/
theorem assignment_follows {target value : Expr} (h : ∀ x ∈ target.target?.toList ++ value.targets, T x)
    (hvalue : (∀ x ∈ value.targets, T x) → ∀ hint, Follows T (checkExpr value hint)) :
    Follows T (assignTo target fun hint => checkExpr value hint) := by
  obtain ⟨htarget, hrest⟩ := List.forall_mem_append.mp h
  exact assignTo_follows (fun x hx => htarget x (Option.mem_toList.mpr hx)) (hvalue hrest)

mutual

theorem checkExpr_follows (e : Expr) (h : ∀ x ∈ e.targets, T x) (hint : Option NumType) :
    Follows T (checkExpr e hint) := by
  match e with
  | .literal value span =>
    rw [checkExpr]
    exact .pure _
  | .var name span =>
    rw [checkExpr]
    exact (variableOf_follows name span).bind fun _ => (readType_follows _ _).bind fun _ => .pure _
  | .binary op left right span =>
    obtain ⟨hleft, hright⟩ := List.forall_mem_append.mp h
    rw [checkExpr]
    refine (checkExpr_follows left hleft _).bind fun first => ?_
    refine (checkExpr_follows right hright _).bind fun second => ?_
    have hend (first : Typed.Expr) : Follows T (do
        let types ← binaryTypes op first.type second.type span
        return Typed.Expr.binary op first second types.1 types.2 span) :=
      (binaryTypes_follows ..).bind fun _ => .pure _
    exact .ite ((checkExpr_follows left hleft _).bind hend) ((Follows.pure first).bind hend)
  | .unary op operand span =>
    rw [checkExpr]
    exact (checkExpr_follows operand h _).bind fun _ => .pure _
  | .update op target targetSpan span =>
    rw [checkExpr]
    exact (variableOf_follows target targetSpan).bind fun _ => (readType_follows _ _).bind fun _ => .pure _
  | .assign target value span =>
    rw [checkExpr]
    refine (assignment_follows h fun hvalue hint => checkExpr_follows value hvalue hint).bind fun _ => ?_
    exact (readType_follows _ _).bind fun _ => .pure _
  | .convert operand source target span =>
    rw [checkExpr]
    refine (checkExpr_follows operand h _).bind fun typed => ?_
    cases source with
    | none => exact .pure _
    | some declared => exact .ite ((report_follows rfl).bind fun _ => .pure _) (.pure _)
  | .call callee arguments span =>
    rw [checkExpr]
    refine (callWith_follows callee arguments span fun types =>
      checkArguments_follows callee arguments h types).bind fun _ => ?_
    exact (callResult_follows callee span).bind fun _ => .pure _

theorem checkArguments_follows (callee : String) (arguments : List Expr)
    (h : ∀ x ∈ targetsOfExprs arguments, T x) (types : List NumType) :
    Follows T (checkArguments callee arguments types) := by
  match arguments, types with
  | argument :: arguments, parameter :: parameters =>
    obtain ⟨hargument, hrest⟩ := List.forall_mem_append.mp h
    rw [checkArguments]
    refine (checkExpr_follows argument hargument _).bind fun typed => .ite (.throw _) ?_
    exact (checkArguments_follows callee arguments hrest parameters).bind fun _ => .pure _
  | [], _ | _ :: _, [] =>
    rw [checkArguments]
    · exact .pure _
    · simp

end

end Expressions

section Statements

theorem checkExpr?_follows {value : Option Expr} (h : ∀ x ∈ targetsOfExpr? value, T x)
    (hint : Option NumType) : Follows T (checkOption (checkExpr · hint) value) := by
  refine checkOption_follows fun e he => ?_
  cases he
  exact checkExpr_follows e h hint

theorem checkDeclare_follows (name : String) (declared : Option NumType) {value : Option Expr}
    (h : ∀ x ∈ targetsOfExpr? value, T x) (span : Span) :
    Follows T (checkDeclare name declared value span) := by
  refine (checkExpr?_follows h declared).bind fun typed => ?_
  have hend (type : NumType) : Follows T (do
      let slot ← declareLocal name type declared.isSome
      return Typed.Stmt.declare slot typed type span) :=
    (declareLocal_follows _ _ _).bind fun _ => .pure _
  cases declared with
  | none => exact hend _
  | some type =>
    cases typed with
    | none => exact hend _
    | some value => exact .ite (.throw _) (hend _)

theorem checkReturn_follows {value : Option Expr} (h : ∀ x ∈ targetsOfExpr? value, T x) (span : Span) :
    Follows T (checkReturn value span) := by
  refine .get (fun s => ?_) fun _ => rfl
  cases s.scope.function with
  | none => exact .throw _
  | some function =>
    refine (signatureOf_follows function span).bind fun signature => ?_
    cases value with
    | none =>
      cases signature.result with
      | some result => exact .throw _
      | none => exact .bind (.modify fun _ => ⟨rfl, rfl, rfl⟩) fun _ => .pure _
    | some value =>
      refine (checkExpr_follows value h _).bind fun typed => ?_
      refine .get (fun s => .ite (.throw _) ?_) fun _ => rfl
      refine .bind (.modify fun _ => ⟨rfl, rfl, rfl⟩) fun _ => .ite (.ite (.throw _) (.pure _)) ?_
      refine .get (fun s => ?_) fun _ => rfl
      cases s.signatures.find? function with
      | none => exact .pure _
      | some current => exact (setSignature_follows _ _).bind fun _ => .pure _

theorem checkExprStmt_follows {e : Expr} (h : ∀ x ∈ e.targets, T x) : Follows T (checkExprStmt e) := by
  cases e with
  | assign target value span =>
    exact (assignment_follows h fun hvalue hint => checkExpr_follows value hvalue hint).bind fun _ => .pure _
  | call callee arguments span =>
    exact (callWith_follows callee arguments span fun types =>
      checkArguments_follows callee arguments h types).bind fun _ => .pure _
  | literal | var | binary | unary | update | convert =>
    exact (checkExpr_follows _ h none).bind fun _ => .pure _

theorem checkJump_follows (construct : String) (span : Span) : Follows T (checkJump construct span) :=
  .get (fun _ => .ite (.throw _) (.pure _)) fun _ => rfl

mutual

theorem checkStmt_follows (stmt : Stmt) (h : ∀ x ∈ stmt.targets, T x) : Follows T (checkStmt stmt) := by
  match stmt with
  | .function name _ _ _ _ span => exact .throw _
  | .declare name declared value span => exact checkDeclare_follows name declared h span
  | .returnValue value span => exact checkReturn_follows h span
  | .assign target value span => exact checkExprStmt_follows (e := .assign target value span) h
  | .call callee arguments span => exact checkExprStmt_follows (e := .call callee arguments span) h
  | .expression value span => exact (checkExpr_follows value h none).bind fun _ => .pure _
  | .breakLoop span => exact (checkJump_follows "break" span).bind fun _ => .pure _
  | .continueLoop span => exact (checkJump_follows "continue" span).bind fun _ => .pure _
  | .print value span =>
    rw [checkStmt]
    exact (checkExpr_follows value h none).bind fun _ => .pure _
  | .block body span =>
    rw [checkStmt]
    exact (within_follows (checkStmts_follows body h)).bind fun _ => .pure _
  | .branch condition yes no span =>
    obtain ⟨h, hno⟩ := List.forall_mem_append.mp h
    obtain ⟨hcondition, hyes⟩ := List.forall_mem_append.mp h
    rw [checkStmt]
    refine (checkExpr_follows condition hcondition none).bind fun _ => ?_
    refine (within_follows (checkStmt_follows yes hyes)).bind fun _ => ?_
    exact (within_follows (checkStmt?_follows no hno)).bind fun _ => .pure _
  | .whileLoop condition body span =>
    obtain ⟨hcondition, hbody⟩ := List.forall_mem_append.mp h
    rw [checkStmt]
    refine (checkExpr_follows condition hcondition none).bind fun _ => ?_
    exact (within_follows (checkStmt_follows body hbody)).bind fun _ => .pure _
  | .forLoop start condition step body span =>
    obtain ⟨h, hstep⟩ := List.forall_mem_append.mp h
    obtain ⟨h, hbody⟩ := List.forall_mem_append.mp h
    obtain ⟨hstart, hcondition⟩ := List.forall_mem_append.mp h
    rw [checkStmt]
    refine within_follows ((checkStmt?_follows start hstart).bind fun _ => ?_)
    refine (checkExpr?_follows hcondition none).bind fun _ => ?_
    refine (within_follows (checkStmt_follows body hbody)).bind fun _ => ?_
    refine (checkOption_follows fun e he => ?_).bind fun _ => .pure _
    cases he
    exact checkExprStmt_follows hstep

theorem checkStmt?_follows (stmt : Option Stmt) (h : ∀ x ∈ targetsOfStmt? stmt, T x) :
    Follows T (checkStmt? stmt) := by
  match stmt with
  | none => exact .pure _
  | some stmt =>
    rw [checkStmt?]
    exact (checkStmt_follows stmt h).bind fun _ => .pure _

theorem checkStmts_follows (stmts : List Stmt) (h : ∀ x ∈ targetsOfStmts stmts, T x) :
    Follows T (checkStmts stmts) := by
  match stmts with
  | [] => exact .pure _
  | stmt :: stmts =>
    obtain ⟨hstmt, hrest⟩ := List.forall_mem_append.mp h
    rw [checkStmts]
    refine (checkStmt_follows stmt hstmt).bind fun _ => ?_
    exact (checkStmts_follows stmts hrest).bind fun _ => .pure _

end

end Statements

section Programs

variable {body : List Stmt}

theorem pass_follows (h : ∀ x ∈ targetsOfStmts body, T x) (scope : Scope) (readTypes : Table NumType)
    (parameters : List Typed.Parameter) : Follows T (pass scope readTypes parameters body) := by
  refine .bind (.modify fun _ => ⟨rfl, rfl, rfl⟩) fun _ => within_follows ?_
  refine .bind (.forM fun p _ => .map (declareLocal_follows _ _ _)) fun _ => ?_
  exact checkStmts_follows body h

/-- Each pass sees what the passes before have left, and so does its strict run. -/
theorem settle_follows (h : ∀ x ∈ targetsOfStmts body, T x) (scope : Scope)
    (parameters : List Typed.Parameter) (fuel number : Nat) (readTypes : Table NumType) :
    Follows T (settle scope parameters body fuel number readTypes) := by
  induction fuel generalizing number readTypes with
  | zero => exact .throw _
  | succ fuel ih =>
    refine (pass_follows h scope readTypes parameters).bind fun typed => ?_
    refine .get (fun s => .ite ?_ (ih _ _)) fun _ => rfl
    exact (report_follows rfl).bind fun _ => .pure _

theorem checkParameters_follows (function : String) (earlier : List String) (parameters : List Parameter) :
    Follows T (checkParameters function earlier parameters) := by
  induction parameters generalizing earlier with
  | nil => exact .pure _
  | cons p ps ih => exact .ite (.throw _) (ih _)

theorem declareFunction_follows (f : Function) : Follows T (declareFunction f) := by
  refine .get (fun s => .ite (.throw _) ?_) fun _ => rfl
  exact (checkParameters_follows f.name [] f.parameters).bind fun _ => setSignature_follows _ _

theorem checkFunction_follows {f : Function} (h : ∀ x ∈ targetsOfStmts f.body, T x) :
    Follows T (checkFunction f) := by
  refine (report_follows rfl).bind fun _ => (settle_follows h ..).bind fun body => ?_
  refine .get (fun s => ?_) fun _ => rfl
  refine (signatureOf_follows f.name f.span).bind fun signature => ?_
  refine (setSignature_follows _ _).bind fun _ => ?_
  split
  · exact .throw _
  · exact .get (fun _ => .pure _) fun _ => rfl

theorem checkFunctions_follows {fs : List Function}
    (h : ∀ x ∈ fs.flatMap fun f => targetsOfStmts f.body, T x) : Follows T (checkFunctions fs) := by
  induction fs with
  | nil => exact .pure _
  | cons f fs ih =>
    rw [List.flatMap_cons] at h
    obtain ⟨hf, hfs⟩ := List.forall_mem_append.mp h
    exact (checkFunction_follows hf).bind fun _ => (ih hfs).bind fun _ => .pure _

theorem checkEntry_follows (h : ∀ x ∈ targetsOfStmts body, T x) (span : Span) :
    Follows T (checkEntry body span) := by
  refine .get (fun s => (report_follows rfl).bind fun _ => ?_) fun _ => rfl
  exact (settle_follows h ..).bind fun _ => .get (fun _ => .pure _) fun _ => rfl

theorem checkProgram_follows (p : Program) : Follows (· ∈ p.targets) (checkProgram p) := by
  refine .get (fun s => .ite (.throw _) ?_) fun _ => rfl
  refine .bind (.forM fun f _ => declareFunction_follows f) fun _ => ?_
  refine (checkFunctions_follows fun x hx => List.mem_append_left _ hx).bind fun _ => ?_
  exact (checkEntry_follows (fun x hx => List.mem_append_right _ hx) p.bodySpan).bind fun _ => .pure _

end Programs

end Checking

section Reports

/-- The declarations by assignment that have been reported, in their order. -/
def Checker.autoDeclared (s : Checker) : List (String × Position) := s.log.toList.filterMap Event.declared?

theorem Checker.firstDeclared?_eq_head? (s : Checker) : s.firstDeclared? = s.autoDeclared.head? :=
  List.head?_filterMap.symm

theorem Checker.autoDeclared_recorded (s : Checker) (slot : String) (type : NumType) :
    (s.recorded slot type).autoDeclared = s.autoDeclared := by
  unfold recorded autoDeclared
  dsimp only
  split
  · simp [Event.declared?]
  · rfl

/-- A declaration alone is not reported, nor is an assignment to a name that is bound. -/
theorem Checker.autoDeclared_declared (s : Checker) (name : String) (type : NumType) (fixed : Bool) :
    (s.declared name type fixed).autoDeclared = s.autoDeclared :=
  autoDeclared_recorded _ _ _

theorem Checker.autoDeclared_assigned (s : Checker) (name slot : String) (type : NumType) :
    (s.assigned name slot type).autoDeclared = s.autoDeclared :=
  autoDeclared_recorded _ _ _

/-- What is reported stands for the declarations that assignments make. Once the value has been checked, an
assignment to a name that is bound reports nothing, and one to any other name declares it and reports it. -/
theorem Checking.assignTo_reports {target : Expr} {check : Option NumType → Checking Typed.Expr}
    {s s' : Checker} {slot : String} {typed : Typed.Expr} {type : NumType}
    (h : assignTo target check s = .ok (slot, typed, type) s') :
    ∃ name span s₁, target = .var name span ∧
      check ((s.scope.find? name).map (·.type)) s = .ok typed s₁ ∧
      ((∃ v, s₁.scope.find? name = some v ∧ s' = s₁.assigned name v.slot type ∧
          s'.autoDeclared = s₁.autoDeclared) ∨
        (s₁.scope.find? name = none ∧
          s' = (s₁.reported (.autoDeclared name type span.start)).declared name type false ∧
          s'.autoDeclared = s₁.autoDeclared ++ [(name, span.start)])) := by
  obtain ⟨name, span, s₁, htarget, hvalue, hbound | hfresh⟩ := assignTo_eq_ok h
  · obtain ⟨v, hv, -, -, rfl⟩ := hbound
    exact ⟨name, span, s₁, htarget, hvalue, .inl ⟨v, hv, rfl, s₁.autoDeclared_assigned _ _ _⟩⟩
  · obtain ⟨hnone, -, -, rfl, rfl⟩ := hfresh
    refine ⟨name, span, s₁, htarget, hvalue, .inr ⟨hnone, rfl, ?_⟩⟩
    rw [Checker.autoDeclared_declared]
    simp [Checker.autoDeclared, Checker.reported, Event.declared?]

end Reports

/-- A strict check differs from one that may declare names by assignment only in that it does not. If the
latter declares none, both have the same result. Otherwise the strict one fails at the target of the first
assignment that declares a name in the other, for this name. -/
theorem strict_check_stops_at_first_declaration (p : Program) (options : Options) :
    match (finalState (p.check { options with autoDeclare := true })).firstDeclared? with
    | none => answer (p.check { options with autoDeclare := false }) =
        answer (p.check { options with autoDeclare := true })
    | some (name, place) => (name, place) ∈ p.targets ∧
        answer (p.check { options with autoDeclare := false }) = .error ⟨.undeclaredName name, place⟩ := by
  have h := (Checking.checkProgram_follows p).agrees (.new { options with autoDeclare := true }) ⟨rfl, rfl⟩
  change Checking.Agrees _ (p.check { options with autoDeclare := true })
    (p.check { options with autoDeclare := false }) at h
  generalize p.check { options with autoDeclare := true } = x at h ⊢
  generalize p.check { options with autoDeclare := false } = y at h ⊢
  cases h with
  | ok hs =>
    rw [finalState, hs.none]
    rfl
  | error hs =>
    rw [finalState, hs]
    rfl
  | stopped hfirst ht =>
    rw [hfirst]
    exact ⟨ht, rfl⟩

/-- A value is checked before the name that it is assigned to. -/
example : checkSource "x = (y = 1);" "" { autoDeclare := false } =
    .error ⟨.undeclaredName "y", ⟨5, ""⟩⟩ := eq_error_of_decide (by decide +kernel)

end Numlet
