import Numlet.Proofs.Check.Blame

/-!
Where the statements of a program stand, in the body of a loop or of a function, and what the check makes of
it. A jump out of a loop belongs into the body of one, and a return into the body of a function.
-/
namespace Numlet

/-- What a statement is nested in. -/
structure Nesting where
  inFunction : Bool
  /-- Inside the body of a loop of the same function. -/
  inLoop : Bool
deriving DecidableEq, Repr

namespace Nesting

def topLevel : Nesting := ⟨false, false⟩

def functionBody : Nesting := ⟨true, false⟩

def loopBody (around : Nesting) : Nesting := { around with inLoop := true }

end Nesting

mutual

/-- The statements in a statement, itself included, each with what is around it. What a loop starts with is
not in its body. -/
def Stmt.standing (around : Nesting) : Stmt → List (Nesting × Stmt)
  | stmt@(.function _ _ _ body _ _) => (around, stmt) :: standingStmts .functionBody body
  | stmt@(.branch _ yes no _) => (around, stmt) :: (yes.standing around ++ standingStmt? around no)
  | stmt@(.whileLoop _ body _) => (around, stmt) :: body.standing around.loopBody
  | stmt@(.forLoop start _ _ body _) =>
    (around, stmt) :: (standingStmt? around start ++ body.standing around.loopBody)
  | stmt@(.block body _) => (around, stmt) :: standingStmts around body
  | stmt => [(around, stmt)]

def standingStmt? (around : Nesting) : Option Stmt → List (Nesting × Stmt)
  | none => []
  | some stmt => stmt.standing around

def standingStmts (around : Nesting) : List Stmt → List (Nesting × Stmt)
  | [] => []
  | stmt :: stmts => stmt.standing around ++ standingStmts around stmts

end

/-- The statements of a program. -/
def Program.standing (p : Program) : List (Nesting × Stmt) :=
  p.functions.flatMap (fun f => standingStmts .functionBody f.body) ++ standingStmts .topLevel p.body

/-- What is wrong with where a statement stands. -/
def Stmt.misplaced? (around : Nesting) : Stmt → Option Diagnostic
  | .breakLoop span =>
    if around.inLoop then none else some ⟨.contextViolation "break" "a loop", span.start⟩
  | .continueLoop span =>
    if around.inLoop then none else some ⟨.contextViolation "continue" "a loop", span.start⟩
  | .returnValue _ span =>
    if around.inFunction then none
    else some ⟨.contextViolation "return" "a function body", span.start⟩
  | _ => none

namespace Checking

section Everywhere

/-- A text in which everything may stand everywhere. -/
def everywhere : Marks := ⟨fun _ => True, fun _ _ _ => True⟩

mutual

theorem placed_everywhere (e : Expr) : e.Placed everywhere := by
  match e with
  | .literal _ _ | .var _ _ => exact trivial
  | .update .. => exact ⟨trivial, trivial⟩
  | .unary _ operand _ | .convert operand _ _ _ => exact ⟨trivial, placed_everywhere operand⟩
  | .binary _ left right _ => exact ⟨trivial, placed_everywhere left, placed_everywhere right⟩
  | .assign target value _ => exact ⟨trivial, placed_everywhere target, placed_everywhere value⟩
  | .call _ arguments _ => exact ⟨trivial, trivial, placedExprs_everywhere arguments⟩

theorem placedExprs_everywhere (es : List Expr) : placedExprs everywhere es := by
  match es with
  | [] => exact trivial
  | e :: es => exact ⟨placed_everywhere e, placedExprs_everywhere es⟩

end

end Everywhere

/-- The checker works on statements with this around them. -/
def WorksIn (around : Nesting) (s : Checker) : Prop :=
  s.scope.function.isSome = around.inFunction ∧ s.scope.inLoop = around.inLoop

/-- A diagnostic that finds none but these statements in a wrong context. -/
def Misplaces (statements : List (Nesting × Stmt)) (d : Diagnostic) : Prop :=
  d.fault.isContextViolation = true → ∃ x ∈ statements, x.2.misplaced? x.1 = some d

theorem Misplaces.mono {xs ys : List (Nesting × Stmt)} {d : Diagnostic} (h : Misplaces xs d)
    (hsub : xs ⊆ ys) : Misplaces ys d := by
  intro hfault
  obtain ⟨x, hx, hxd⟩ := h hfault
  exact ⟨x, hsub hx, hxd⟩

theorem Allows.misplaces (statements : List (Nesting × Stmt)) (around : Nesting) :
    Allows everywhere (WorksIn around) (Misplaces statements) where
  keeps := by
    intro s s' hfunction hloop h
    unfold WorksIn
    rwa [hfunction, hloop]
  admits _ hfault := fun h => absurd (h.symm.trans hfault) (by decide)

/-- A computation checks that some statements stand where they belong. -/
def Confines {α : Type} (R : Checker → Prop) (statements : List (Nesting × Stmt)) (m : Checking α) : Prop :=
  Blames R (Misplaces statements) (fun _ => ∀ x ∈ statements, x.2.misplaced? x.1 = none) m

namespace Confines

variable {α β : Type} {R : Checker → Prop} {xs ys : List (Nesting × Stmt)} {m : Checking α}

/-- A computation that has no statements to check. -/
theorem of_blames {P : α → Prop} (h : Blames R (Misplaces []) P m) : Confines R [] m :=
  h.imp fun _ _ => nofun

theorem cons {around : Nesting} {stmt : Stmt} (h : Confines R xs m)
    (hstmt : stmt.misplaced? around = none) : Confines R ((around, stmt) :: xs) m := by
  have hall := Blames.mono h fun d hd => hd.mono (List.subset_cons_self (around, stmt) xs)
  exact hall.imp fun _ hxs x hx => (List.mem_cons.mp hx).elim (fun h => h ▸ hstmt) (hxs x)

theorem bind {k : α → Checking β} (h : Confines R xs m) (hk : ∀ a, Confines R ys (k a)) :
    Confines R (xs ++ ys) (m >>= k) := by
  have hfirst := Blames.mono h fun d hd => hd.mono (List.subset_append_left xs ys)
  have hsecond (a : α) := Blames.mono (hk a) fun d hd => hd.mono (List.subset_append_right xs ys)
  exact hfirst.bind fun a hxs => (hsecond a).imp fun _ hys x hx =>
    (List.mem_append.mp hx).elim (hxs x) (hys x)

theorem after {P : α → Prop} {k : α → Checking β} (h : Blames R (Misplaces []) P m)
    (hk : ∀ a, Confines R ys (k a)) : Confines R ys (m >>= k) :=
  bind (of_blames h) hk

theorem before {k : α → Checking β} (h : Confines R xs m)
    (hk : ∀ a, Blames R (Misplaces []) (fun _ => True) (k a)) : Confines R xs (m >>= k) := by
  have hall := h.bind fun a => of_blames (hk a)
  rwa [List.append_nil] at hall

theorem bind_pure {f : α → β} (h : Confines R xs m) : Confines R xs (m >>= fun a => pure (f a)) :=
  h.before fun _ => .pure trivial

theorem within {around inner : Nesting} {enter : Scope → Scope} (h : Confines (WorksIn inner) xs m)
    (henter : ∀ s, WorksIn around s → WorksIn inner { s with scope := enter s.scope }) :
    Confines (WorksIn around) xs (within enter m) :=
  within_blames henter (fun _ _ h => h) h

end Confines

section Statements

variable {around : Nesting}

theorem checkJump_confines {construct : String} {stmt : Stmt} {span : Span}
    (h : stmt.misplaced? around = if around.inLoop then none
      else some ⟨.contextViolation construct "a loop", span.start⟩) :
    Confines (WorksIn around) [(around, stmt)] (checkJump construct span) := by
  refine Blames.bind .get fun s hs => .ite (fun hout => .throw fun _ => ?_) fun hin => .pure fun x hx => ?_
  · have hloop : around.inLoop = false := by rw [← hs.2]; simpa using hout
    exact ⟨_, List.mem_singleton_self _, by simp [h, hloop]⟩
  · have hloop : around.inLoop = true := by rw [← hs.2]; simpa using hin
    rw [List.mem_singleton.mp hx]
    simp [h, hloop]

theorem checkReturn_confines (value : Option Expr) (span : Span) :
    Confines (WorksIn around) [(around, .returnValue value span)] (checkReturn value span) := by
  cases hplace : around.inFunction with
  | true =>
    refine .cons (.of_blames (checkReturn_covers (.misplaces [] around) trivial
      (fun e _ => placed_everywhere e) fun s hs hnone => ?_)) (by simp [Stmt.misplaced?, hplace])
    simp [WorksIn, hnone, hplace] at hs
  | false =>
    refine Blames.bind .get fun s hs => ?_
    have hnone : s.scope.function = none := by simpa [hplace] using hs.1
    rw [hnone]
    exact .throw fun _ => ⟨_, List.mem_singleton_self _, by simp [Stmt.misplaced?, hplace]⟩

mutual

theorem checkStmt_confines (around : Nesting) (stmt : Stmt) :
    Confines (WorksIn around) (stmt.standing around) (checkStmt stmt) := by
  have c := Allows.misplaces [] around
  match stmt with
  | .function .. => exact Blames.throw ((Allows.misplaces _ around).admits trivial rfl)
  | .declare .. =>
    exact .cons (.of_blames (checkDeclare_covers c _ _ trivial fun e _ => placed_everywhere e)) rfl
  | .assign target value _ =>
    exact .cons (.of_blames (assignStmt_covers c trivial (placed_everywhere target)
      (placed_everywhere value))) rfl
  | .call _ arguments _ =>
    exact .cons (.of_blames (callStmt_covers c trivial trivial (placedExprs_everywhere arguments))) rfl
  | .expression value _ => exact .cons (.of_blames (expressionStmt_covers c (placed_everywhere value))) rfl
  | .print value _ =>
    rw [checkStmt]
    exact .cons (.bind_pure (.of_blames (checkExpr_covers c value none (placed_everywhere value)))) rfl
  | .returnValue value span => exact checkReturn_confines value span
  | .breakLoop span => exact .bind_pure (checkJump_confines rfl)
  | .continueLoop span => exact .bind_pure (checkJump_confines rfl)
  | .block body _ =>
    rw [checkStmt, Stmt.standing]
    exact .cons (.bind_pure (.within (checkStmts_confines around body) fun _ h => h)) rfl
  | .branch condition yes no _ =>
    rw [checkStmt, Stmt.standing]
    refine .cons (.after (checkExpr_covers c condition none (placed_everywhere _)) fun _ => ?_) rfl
    refine .bind (.within (checkStmt_confines around yes) fun _ h => h) fun _ => ?_
    exact .bind_pure (.within (checkStmt?_confines around no) fun _ h => h)
  | .whileLoop condition body _ =>
    rw [checkStmt, Stmt.standing]
    refine .cons (.after (checkExpr_covers c condition none (placed_everywhere _)) fun _ => ?_) rfl
    exact .bind_pure (.within (checkStmt_confines around.loopBody body) fun _ h => ⟨h.1, rfl⟩)
  | .forLoop start condition step body _ =>
    rw [checkStmt, Stmt.standing]
    refine .cons (.within (.bind (checkStmt?_confines around start) fun _ => ?_) fun _ h => h) rfl
    refine .after (checkOption_covers fun e _ => checkExpr_covers c e none (placed_everywhere e))
      fun _ => ?_
    refine .before (.within (checkStmt_confines around.loopBody body) fun _ h => ⟨h.1, rfl⟩) fun _ => ?_
    exact (checkOption_covers fun e _ => checkExprStmt_covers c (placed_everywhere e)).bind fun _ _ =>
      .pure trivial

theorem checkStmt?_confines (around : Nesting) (stmt : Option Stmt) :
    Confines (WorksIn around) (standingStmt? around stmt) (checkStmt? stmt) := by
  match stmt with
  | none => exact Blames.pure nofun
  | some stmt =>
    rw [checkStmt?, standingStmt?]
    exact .bind_pure (checkStmt_confines around stmt)

theorem checkStmts_confines (around : Nesting) (stmts : List Stmt) :
    Confines (WorksIn around) (standingStmts around stmts) (checkStmts stmts) := by
  match stmts with
  | [] => exact Blames.pure nofun
  | stmt :: stmts =>
    rw [checkStmts, standingStmts]
    exact .bind (checkStmt_confines around stmt) fun _ => .bind_pure (checkStmts_confines around stmts)

end

end Statements

section Programs

theorem pass_confines (function : Option String) (readTypes : Table NumType)
    (parameters : List Typed.Parameter) (body : List Stmt) :
    Confines (fun _ => True) (standingStmts ⟨function.isSome, false⟩ body)
      (pass { function := function } readTypes parameters body) := by
  have c := Allows.misplaces [] ⟨function.isSome, false⟩
  have hbody : Confines (WorksIn ⟨function.isSome, false⟩) (standingStmts ⟨function.isSome, false⟩ body)
      (do declareParameters parameters; checkStmts body) := by
    refine .after (.forM fun p _ => .map (declareLocal_covers c _ _ _) fun _ _ => trivial) fun _ => ?_
    exact checkStmts_confines _ body
  refine .after (.modify fun _ h => h) fun _ => ?_
  exact within_blames (fun _ _ => ⟨rfl, rfl⟩) (fun _ _ h => h) hbody

theorem Allows.misplaces_anywhere (statements : List (Nesting × Stmt)) :
    Allows everywhere (fun _ => True) (Misplaces statements) :=
  ⟨fun _ _ h => h, (Allows.misplaces statements .topLevel).admits⟩

theorem checkFunctions_confines (fs : List Function) :
    Confines (fun _ => True) (fs.flatMap fun f => standingStmts .functionBody f.body)
      (checkFunctions fs) := by
  induction fs with
  | nil => exact Blames.pure nofun
  | cons f fs ih =>
    rw [List.flatMap_cons]
    have hbody := checkBody_covers fun readTypes =>
      pass_confines (some f.name) readTypes f.typedParameters f.body
    exact .bind (checkFunction_covers (.misplaces_anywhere _) trivial hbody) fun _ => ih.bind_pure

theorem checkProgram_confines (p : Program) :
    Confines (fun _ => True) p.standing (checkProgram p) := by
  have c := Allows.misplaces_anywhere []
  refine .after .get fun s => Blames.ite (fun _ => ?_) fun _ => ?_
  · exact .throw ((Allows.misplaces_anywhere _).admits trivial rfl)
  refine Confines.after (.forM fun f _ => declareFunction_covers c trivial fun _ _ => trivial) fun _ => ?_
  refine .bind (checkFunctions_confines p.functions) fun _ => ?_
  have hbody := checkBody_covers fun readTypes => pass_confines none readTypes [] p.body
  exact .bind_pure (checkEntry_covers (.misplaces_anywhere _) p.bodySpan hbody)

end Programs

end Checking

end Numlet
