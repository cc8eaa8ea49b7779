import Numlet.Proofs.Meaning.Expressions

/-!
The code of a statement follows its meaning: a normal end leaves the empty stack, a break or continue is a
jump to a label of the loop around it.
-/
namespace Numlet

variable {F D W α : Type}

/-- Whether a statement is left for the loop around it. -/
def Outcome.jumps : Outcome F D W → Bool
  | .broke _ | .continued _ => true
  | .normal _ | .returned _ _ | .trapped _ | .outOfFuel => false

/-- A jump with the locals of a store. -/
def Store.jump (s : Store F D W) (label : Label) : Flow F D W :=
  .jump label (fun x => some (s.locals x)) s.world

theorem Store.redirect_jump_self (s : Store F D W) (label : Label) (k : Config F D W → Flow F D W) :
    (s.jump label).redirect label k = k (s.config []) := if_pos rfl

theorem Store.redirect_jump_of_ne (s : Store F D W) {l label : Label} (h : l ≠ label)
    (k : Config F D W → Flow F D W) : (s.jump l).redirect label k = s.jump l := if_neg h

/-- How code goes on after a statement in the loop `inner`. -/
def Outcome.flow (inner : Nat) : Outcome F D W → Flow F D W
  | .normal s => .next (s.config [])
  | .broke s => s.jump (.exit inner)
  | .continued s => s.jump (.next inner)
  | .returned v w => .ret v w
  | .trapped w => .trap w
  | .outOfFuel => .outOfFuel

/-- How the rounds of a loop go on, inside the loop's block: after the last one the block is left. -/
def Outcome.flowInside (inner label : Nat) : Outcome F D W → Flow F D W
  | .normal s => s.jump (.exit label)
  | .broke s => s.jump (.exit inner)
  | .continued s => s.jump (.next inner)
  | .returned v w => .ret v w
  | .trapped w => .trap w
  | .outOfFuel => .outOfFuel

section Jumps

theorem Computation.jumps_andThen {m : Computation F D W α} {k : α → Store F D W → Outcome F D W}
    (hk : ∀ a s, (k a s).jumps = false) (s : Store F D W) : (m.andThen k s).jumps = false := by
  unfold Computation.andThen
  split
  · exact hk _ _
  · rfl

theorem Outcome.jumps_andThen {o : Outcome F D W} {k : Store F D W → Outcome F D W}
    (ho : o.jumps = false) (hk : ∀ s, (k s).jumps = false) : (o.andThen k).jumps = false := by
  cases o with
  | normal s => exact hk s
  | broke | continued | returned | trapped | outOfFuel => exact ho

/-- What leaves the body of a loop does not leave the loop. -/
theorem jumps_iterate {test : Computation F D W Bool} {body step : Nat → Store F D W → Outcome F D W}
    (hstep : ∀ n s, (step n s).jumps = false) (n : Nat) (s : Store F D W) :
    (iterate test body step n s).jumps = false := by
  induction n generalizing s with
  | zero => rfl
  | succ n ih =>
    refine Computation.jumps_andThen (fun holds s => ?_) s
    cases holds with
    | false => rfl
    | true =>
      simp only [if_true]
      cases body n s with
      | normal s | continued s => exact Outcome.jumps_andThen (hstep n s) ih
      | broke | returned | trapped | outOfFuel => rfl

namespace Typed.Context

variable (c : Context) (I : Interpretation F D W)

mutual

/-- A statement outside all loops does not jump. -/
theorem jumps_run (stmt : Stmt) (h : stmt.JumpsOk false) (n : Nat) (s : Store F D W) :
    (c.run I stmt n s).jumps = false := by
  have hfinish : ∀ {α : Type} (m : Computation F D W α), (m.finish s).jumps = false :=
    fun m => Computation.jumps_andThen (fun _ _ => rfl) s
  match stmt with
  | .declare x value t span =>
    cases value <;> rw [run] <;> exact hfinish _
  | .assign .. | .print .. | .expression _ | .call .. =>
    rw [run]
    exact hfinish _
  | .branch condition yes no span =>
    rw [run]
    refine Computation.jumps_andThen (fun holds s => ?_) s
    cases holds with
    | true => exact jumps_run yes h.1 n s
    | false => exact jumps_run? no h.2 n s
  | .loop start condition body step span =>
    rw [run]
    refine Outcome.jumps_andThen (jumps_run? start h.1 n s) fun s => ?_
    exact jumps_iterate (fun n s => jumps_run? step h.2.2 n s) n s
  | .breakLoop _ | .continueLoop _ => cases h
  | .returnValue value span =>
    cases value with
    | none =>
      rw [run]
      rfl
    | some value =>
      rw [run]
      exact Computation.jumps_andThen (fun _ _ => rfl) s
  | .block body span =>
    rw [run]
    exact jumps_runAll body h n s

theorem jumps_run? (stmt : Option Stmt) (h : jumpsOk? false stmt) (n : Nat) (s : Store F D W) :
    (c.run? I stmt n s).jumps = false := by
  match stmt with
  | none =>
    rw [run?]
    rfl
  | some stmt =>
    rw [run?]
    exact jumps_run stmt h n s

theorem jumps_runAll (stmts : List Stmt) (h : jumpsOkAll false stmts) (n : Nat) (s : Store F D W) :
    (c.runAll I stmts n s).jumps = false := by
  match stmts with
  | [] =>
    rw [runAll]
    rfl
  | stmt :: stmts =>
    rw [runAll]
    exact Outcome.jumps_andThen (jumps_run stmt h.1 n s) fun s => jumps_runAll stmts h.2 n s

end

end Typed.Context

end Jumps

theorem Flow.onto_nil (flow : Flow F D W) : flow.onto [] = flow := by
  cases flow with
  | next c => simp [Flow.onto, Flow.bind]
  | jump | ret | trap | outOfFuel => rfl

namespace Machine

/-- From an empty stack, code goes on as the statement ends. -/
def Follows (M : Machine F D W) (ns : List Node) (inner : Nat)
    (run : Nat → Store F D W → Outcome F D W) : Prop :=
  ∀ n s, M.execAll ns n (s.config []) = (run n s).flow inner

variable {M : Machine F D W} {ns ms : List Node} {inner : Nat} {m : Computation F D W α}
  {after : α → List (Value F D)}

theorem Follows.append {run run' : Nat → Store F D W → Outcome F D W} (h : M.Follows ns inner run)
    (h' : M.Follows ms inner run') :
    M.Follows (ns ++ ms) inner fun n s => (run n s).andThen (run' n) := by
  intro n s
  rw [execAll_append, h n s]
  change _ = Outcome.flow inner ((run n s).andThen (run' n))
  cases run n s with
  | normal s => exact h' n s
  | broke | continued | returned | trapped | outOfFuel => rfl

/-- A computation, and a statement that goes on with its value. -/
theorem Computes.andThen (h : M.Computes ns [] m after)
    {run : α → Nat → Store F D W → Outcome F D W}
    (h' : ∀ a n s, M.execAll ms n (s.config (after a)) = (run a n s).flow inner) :
    M.Follows (ns ++ ms) inner fun n => m.andThen fun a s => run a n s := by
  intro n s
  rw [execAll_append, h n s]
  change _ = Outcome.flow inner (m.andThen (fun a s => run a n s) s)
  unfold Computation.andThen
  cases m s with
  | error w => rfl
  | ok r => exact h' r.1 n r.2

theorem Computes.finish (h : M.Computes ns [] m (fun _ => [])) :
    M.Follows ns inner fun _ => m.finish := by
  rw [← List.append_nil ns]
  exact h.andThen fun _ _ _ => rfl

/-- A value that nobody uses. -/
theorem Computes.dropped (h : M.Computes ns [] m after) {f : α → Value F D}
    (hf : ∀ a, after a = [f a]) :
    M.Computes (ns ++ [.plain .drop rfl]) [] m (fun _ => []) := by
  intro n s
  rw [execAll_append, h n s]
  cases m s with
  | error w => rfl
  | ok r =>
    change M.execAll [.plain .drop rfl] n (r.2.config (after r.1)) = _
    rw [hf]
    rfl

/-- The body of a loop, from which a continue goes on with the step. -/
theorem Follows.body {label : Nat} {run : Nat → Store F D W → Outcome F D W}
    (h : M.Follows ns label run) (n : Nat) (s : Store F D W) :
    M.execAll [.block (.next label) ns] n (s.config []) =
      match run n s with
      | .normal s | .continued s => .next (s.config [])
      | .broke s => s.jump (.exit label)
      | .returned v w => .ret v w
      | .trapped w => .trap w
      | .outOfFuel => .outOfFuel := by
  rw [execAll_single, exec]
  change ((M.execAll ns n (s.config [])).redirect (.next label) .next).onto [] = _
  rw [h n s, Flow.onto_nil]
  cases run n s with
  | continued s => exact s.redirect_jump_self _ _
  | broke s => exact s.redirect_jump_of_ne (by simp) _
  | normal | returned | trapped | outOfFuel => rfl

section Loop

variable {label : Nat} {test : Computation F D W Bool} {testNodes bodyNodes stepNodes : List Node}
  {body step : Nat → Store F D W → Outcome F D W}

/-- Code that leaves the loop unless its test holds. -/
def Tests (M : Machine F D W) (ns : List Node) (label : Nat) (test : Computation F D W Bool) : Prop :=
  ∀ n s, M.execAll ns n (s.config []) =
    match test s with
    | .ok (true, s) => .next (s.config [])
    | .ok (false, s) => s.jump (.exit label)
    | .error w => .trap w

/-- The step of a loop and the jump back to its head. -/
theorem Follows.again (hstep : M.Follows stepNodes inner step) {n : Nat}
    {back : Config F D W → Flow F D W} {rest : Store F D W → Outcome F D W}
    (hback : ∀ s : Store F D W, back (s.config []) = (rest s).flowInside inner label)
    (s : Store F D W) :
    (M.execAll (stepNodes ++ [.plain (.br (.head label)) rfl]) n (s.config [])).redirect
        (.head label) back =
      ((step n s).andThen rest).flowInside inner label := by
  rw [execAll_append, hstep n s]
  cases step n s with
  | normal s => exact (s.redirect_jump_self _ _).trans (hback s)
  | broke s | continued s => exact s.redirect_jump_of_ne (by simp) _
  | returned | trapped | outOfFuel => rfl

/-- The rounds of a loop. -/
theorem repeated_follows (htest : M.Tests testNodes label test)
    (hbody : M.Follows bodyNodes label body) (hstep : M.Follows stepNodes inner step)
    (n : Nat) (s : Store F D W) :
    Flow.repeated (M.execAll (testNodes ++ [.block (.next label) bodyNodes] ++ stepNodes ++
        [.plain (.br (.head label)) rfl])) (.head label) n (s.config []) =
      (iterate test body step n s).flowInside inner label := by
  induction n generalizing s with
  | zero => rfl
  | succ n ih =>
    rw [Flow.repeated]
    generalize Flow.repeated _ (.head label) n = back at ih ⊢
    rw [iterate, Computation.andThen, List.append_assoc, execAll_append, execAll_append, htest n s]
    cases test s with
    | error w => rfl
    | ok r =>
      obtain ⟨holds, s⟩ := r
      cases holds with
      | false => exact s.redirect_jump_of_ne (by simp) _
      | true =>
        change (((M.execAll [.block (.next label) bodyNodes] n (s.config [])).bind _).redirect _ _) = _
        rw [hbody.body]
        simp only [if_true]
        cases body n s with
        | normal s | continued s => exact hstep.again ih s
        | broke s => exact s.redirect_jump_of_ne (by simp) _
        | returned | trapped | outOfFuel => rfl

/-- A loop in its block. A jump out of the step, to a loop around this one, is not to this block. -/
theorem Follows.loop (htest : M.Tests testNodes label test) (hbody : M.Follows bodyNodes label body)
    (hstep : M.Follows stepNodes inner step)
    (hout : inner ≠ label ∨ ∀ n s, (step n s).jumps = false) :
    M.Follows [.block (.exit label) [.loop (.head label) (testNodes ++ [.block (.next label) bodyNodes] ++
      stepNodes ++ [.plain (.br (.head label)) rfl])]] inner (iterate test body step) := by
  intro n s
  have hrounds := repeated_follows htest hbody hstep n s
  have hblock : M.execAll [.block (.exit label) [.loop (.head label) (testNodes ++
      [.block (.next label) bodyNodes] ++ stepNodes ++ [.plain (.br (.head label)) rfl])]] n (s.config []) =
      ((iterate test body step n s).flowInside inner label).redirect (.exit label) .next := by
    rw [← hrounds, execAll_single, exec]
    change ((M.execAll [.loop _ _] n (s.config [])).redirect (.exit label) .next).onto [] = _
    rw [Flow.onto_nil, execAll_single, exec]
    exact congrArg _ (Flow.onto_nil _)
  rw [hblock]
  cases ho : iterate test body step n s with
  | normal s₁ => exact s₁.redirect_jump_self _ _
  | broke s₁ =>
    obtain hne | hnone := hout
    · exact s₁.redirect_jump_of_ne (by simp [hne]) _
    · have hjumps : (iterate test body step n s).jumps = false := jumps_iterate hnone n s
      rw [ho] at hjumps
      cases hjumps
  | continued s₁ => exact s₁.redirect_jump_of_ne (by simp) _
  | returned | trapped | outOfFuel => rfl

end Loop

end Machine

namespace Computation

theorem bind_andThen {β : Type} (m : Computation F D W α) (f : α → Computation F D W β)
    (k : β → Store F D W → Outcome F D W) :
    (m >>= f).andThen k = m.andThen fun a => (f a).andThen k := by
  funext s
  cases hm : m s with
  | error w => simp only [andThen, bind_error hm, hm]
  | ok r =>
    obtain ⟨a, s₁⟩ := r
    simp only [andThen, bind_ok hm, hm]

end Computation

namespace Typed.Context
open Coercion (firstRefusal)

variable {M : Machine F D W} {c : Context}

/-- Leaves a loop if the number on the stack is zero. -/
theorem execAll_unless (M : Machine F D W) (label n : Nat) (s : Store F D W) (b : BitVec 32) :
    M.execAll [.plain (.eqz .i32) rfl, .plain (.brIf (.exit label)) rfl] n (s.config [.i32 b]) =
      if b = 0 then s.jump (.exit label) else .next (s.config []) := by
  rw [Machine.execAll_cons, Machine.exec]
  change M.execAll [.plain (.brIf (.exit label)) rfl] n (s.config [.ofBool (b == 0)]) = _
  rw [Machine.execAll_single, Machine.exec]
  by_cases hb : b = 0
  · rw [if_pos hb, hb]
    rfl
  · have hfalse : (b == 0) = false := by simpa using hb
    rw [if_neg hb, hfalse]
    rfl

/-- The test of a loop leaves the loop if the condition does not hold. -/
theorem testNodes_tests (hM : M.Suits c) {e : Option Expr} (hs : ∀ x ∈ partsOfExpr? e, c.ExprOk x)
    (ha : firstRefusal (c.coercions? e) = none) (label : Nat) :
    M.Tests (c.testNodes label e) label (c.holds? M.ops e) := by
  intro n s
  cases e with
  | none => rfl
  | some e =>
    rw [testNodes, List.append_assoc, Machine.execAll_append, exprNodes_computes e hM hs ha [] n s, holds?,
      holds]
    cases he : c.eval M.ops e s with
    | error w =>
      rw [Computation.bind_error he]
      rfl
    | ok r =>
      obtain ⟨v, s⟩ := r
      rw [Computation.bind_ok he]
      change M.execAll (conditionNodes e.type ++ _) n (s.config [v]) = _
      rw [Machine.execAll_append, M.bind_condition (execAll_unless M label n s)]
      · cases M.ops.isTrue e.type v with
        | none => rfl
        | some b => cases b <;> rfl
      · intro u hu
        cases u with
        | i32 b => exact absurd rfl (hu b)
        | i64 | f32 | f64 => rfl

/-- A value that is computed and stored. -/
theorem store_follows (hM : M.Suits c) {x : String} {value : Expr} {span : Span} {inner : Nat}
    (hx : c.Holds x value.type) (hs : c.Sound value)
    (ha : firstRefusal (c.coercions value ++ [.implicit value.type (c.slotType x) span]) = none) :
    M.Follows (c.exprNodes value ++ c.storeNodes x value.type) inner
      fun _ => (c.store M.ops x value).finish := by
  obtain ⟨t, hx, -⟩ := hx
  simp only [Coercion.firstRefusal_append, Coercion.firstRefusal_cons, Option.or_eq_none_iff] at ha
  refine Machine.Computes.finish ?_
  exact (exprNodes_computes value hM hs ha.1 []).bind fun v => storeNodes_computes hM hx ha.2.1 v []

theorem declareNodes_follows (hM : M.Suits c) {x : String} {value : Option Expr} {t : NumType} {span : Span}
    {inLoop : Bool} (hs : c.SoundStmt inLoop (.declare x value t span))
    (ha : firstRefusal (c.stmtCoercions (.declare x value t span)) = none) (inner : Nat) :
    M.Follows (c.declareNodes x t value) inner (c.run M.ops (.declare x value t span)) := by
  obtain ⟨⟨t', hx, -⟩, hvalue⟩ := hs.self
  cases value with
  | none =>
    rw [stmtCoercions, Coercion.firstRefusal_cons, Option.or_eq_none_iff] at ha
    rw [run, declareNodes, Interpretation.zero, ← pure_bind (M.ops.const t (.int 0)) (c.write M.ops x t)]
    exact ((Machine.Computes.const t (.int 0) []).bind fun v =>
      storeNodes_computes hM hx ha.1 v []).finish
  | some value =>
    rw [stmtCoercions] at ha
    rw [run]
    exact store_follows hM (hvalue value rfl) hs.exprs ha

theorem returnNodes_follows (hM : M.Suits c) {value : Option Expr} {span : Span} {inLoop : Bool}
    (hs : c.SoundStmt inLoop (.returnValue value span))
    (ha : firstRefusal (c.stmtCoercions (.returnValue value span)) = none) (inner : Nat) :
    M.Follows (c.returnNodes value) inner (c.run M.ops (.returnValue value span)) := by
  have hok := hs.self
  have hresult := hM.result
  cases value with
  | none =>
    change c.result = none at hok
    rw [hok] at hresult
    intro n s
    rw [run, returnNodes, Machine.execAll_single, Machine.exec]
    simp only [Machine.step, hresult]
    rfl
  | some value =>
    obtain ⟨r, hr, -⟩ := hok
    rw [hr] at hresult
    simp only [stmtCoercions, hr, Option.map_some, Option.toList_some, Coercion.firstRefusal_append,
      Coercion.firstRefusal_cons, Option.or_eq_none_iff] at ha
    rw [run, returnNodes, returned, hr]
    refine Machine.Computes.andThen ((exprNodes_computes value hM hs.exprs ha.1 []).bind fun v =>
      .coerce ha.2.1 v []) fun v n s => ?_
    rw [Machine.execAll_single, Machine.exec]
    simp only [Machine.step, hresult]
    rfl

theorem callStmt_follows (hM : M.Suits c) {callee : String} {es : List Expr} {ts : List NumType}
    {span : Span} {inLoop : Bool} (hs : c.SoundStmt inLoop (.call callee es ts span))
    (ha : firstRefusal (c.argumentCoercions es ts) = none) (inner : Nat) :
    M.Follows (c.argumentNodes es ts ++ callNodes callee ++
        if (c.resultOf callee).isSome then [.plain .drop rfl] else []) inner
      (c.run M.ops (.call callee es ts span)) := by
  obtain ⟨⟨r, hsig⟩, hfits⟩ := hs.self
  have hresult : c.resultOf callee = r := by
    rw [resultOf, hsig]
    rfl
  have hcall := callNodes_computes hM hsig hfits (argumentNodes_computes es ts hM hs.exprs ha [])
  rw [run, hresult]
  cases r with
  | none =>
    rw [if_neg (by simp), List.append_nil]
    exact hcall.finish
  | some r => exact (hcall.dropped fun _ => rfl).finish

/-- A branch, with a second part that does as it should. -/
theorem branch_follows (hM : M.Suits c) {e : Expr} (hs : c.Sound e)
    (ha : firstRefusal (c.coercions e) = none) {yes : List Node} {no : Option (List Node)} {inner : Nat}
    {run run' : Nat → Store F D W → Outcome F D W} (hyes : M.Follows yes inner run)
    (hno : ∀ n s, M.execElse no n (s.config []) = (run' n s).flow inner) :
    M.Follows (c.exprNodes e ++ conditionNodes e.type ++ [.cond none yes no]) inner fun n =>
      (c.holds M.ops e).andThen fun holds s => if holds then run n s else run' n s := by
  rw [List.append_assoc]
  simp only [holds, Computation.bind_andThen]
  refine (exprNodes_computes e hM hs ha []).andThen fun v n s => ?_
  rw [Machine.execAll_branch, Flow.onto_nil, Flow.onto_nil, hyes n s, hno n s]
  cases M.ops.isTrue e.type v with
  | none => rfl
  | some b => cases b <;> rfl

mutual

/-- The code of a statement in the loop `inner`, whose number is below those of the loops inside. -/
theorem stmtNodes_follows (st : Stmt) (hM : M.Suits c) {inLoop : Bool} (hs : c.SoundStmt inLoop st)
    (ha : firstRefusal (c.stmtCoercions st) = none) {inner next : Nat}
    (hin : inLoop = true → inner < next) :
    M.Follows (c.stmtNodes inner next st) inner (c.run M.ops st) := by
  match st with
  | .declare x value t span =>
    rw [stmtNodes]
    exact declareNodes_follows hM hs ha inner
  | .assign x value span =>
    rw [stmtNodes, run]
    rw [stmtCoercions] at ha
    exact store_follows hM hs.self hs.exprs ha
  | .branch condition yes no span =>
    obtain ⟨hcondition, hyes, hno⟩ := hs.branch
    simp only [stmtCoercions, Coercion.firstRefusal_append, Option.or_eq_none_iff] at ha
    rw [stmtNodes, run]
    refine branch_follows hM hcondition ha.1.1 (stmtNodes_follows yes hM hyes ha.1.2 hin) fun n s => ?_
    exact elseNodes_follows no hM hno ha.2 (fun h => Nat.lt_add_right _ (hin h)) n s
  | .loop start condition body step span =>
    obtain ⟨hstart, hcondition, hbody, hstep⟩ := hs.loop
    simp only [stmtCoercions, Coercion.firstRefusal_append, Option.or_eq_none_iff] at ha
    rw [stmtNodes, run]
    refine (stmtNodes?_follows start hM hstart ha.1.1.1 hin).append ?_
    refine .loop (testNodes_tests hM hcondition ha.1.1.2 _)
      (stmtNodes_follows body hM hbody ha.1.2 fun _ => Nat.lt_succ_self _)
      (stmtNodes?_follows step hM hstep ha.2 fun h => ?_) ?_
    · have hlt := hin h
      omega
    · -- Outside all loops the step cannot jump, inside one the loop around has another number.
      cases inLoop with
      | false => exact .inr fun n s => c.jumps_run? M.ops step hstep.jumps n s
      | true =>
        have hlt := hin rfl
        exact .inl (by omega)
  | .breakLoop span | .continueLoop span =>
    intro n s
    rw [stmtNodes, run, Machine.execAll_single, Machine.exec]
    rfl
  | .returnValue value span =>
    rw [stmtNodes]
    exact returnNodes_follows hM hs ha inner
  | .print value span =>
    rw [stmtCoercions] at ha
    rw [stmtNodes, run]
    refine Machine.Computes.finish ((exprNodes_computes value hM hs.exprs ha []).bind fun v => ?_)
    have hone : [v].length = 1 := rfl
    exact .call (hM.print value.type) hone []
  | .block body span =>
    rw [stmtNodes, run]
    rw [stmtCoercions] at ha
    exact stmtsNodes_follows body hM hs.block ha hin
  | .expression value =>
    rw [stmtCoercions] at ha
    rw [stmtNodes, run]
    exact ((exprNodes_computes value hM hs.exprs ha []).dropped fun _ => rfl).finish
  | .call callee es ts span =>
    rw [stmtCoercions] at ha
    rw [stmtNodes]
    exact callStmt_follows hM hs ha inner

theorem stmtNodes?_follows (st : Option Stmt) (hM : M.Suits c) {inLoop : Bool}
    (hs : c.SoundStmt? inLoop st) (ha : firstRefusal (c.stmtCoercions? st) = none) {inner next : Nat}
    (hin : inLoop = true → inner < next) :
    M.Follows (c.stmtNodes? inner next st) inner (c.run? M.ops st) := by
  match st with
  | none => exact fun n s => by rw [stmtNodes?, run?]; rfl
  | some st =>
    rw [stmtNodes?, run?]
    rw [stmtCoercions?] at ha
    exact stmtNodes_follows st hM hs.some ha hin

theorem elseNodes_follows (st : Option Stmt) (hM : M.Suits c) {inLoop : Bool}
    (hs : c.SoundStmt? inLoop st) (ha : firstRefusal (c.stmtCoercions? st) = none) {inner next : Nat}
    (hin : inLoop = true → inner < next) (n : Nat) (s : Store F D W) :
    M.execElse (c.elseNodes inner next st) n (s.config []) = (c.run? M.ops st n s).flow inner := by
  match st with
  | none => rw [elseNodes, run?]; rfl
  | some st =>
    rw [elseNodes, run?]
    rw [stmtCoercions?] at ha
    split
    · next hempty =>
      obtain ⟨span, rfl⟩ := Stmt.isEmptyBlock_iff.mp hempty
      rw [run, runAll]
      rfl
    · rw [Machine.execElse]
      exact stmtNodes_follows st hM hs.some ha hin n s

theorem stmtsNodes_follows (sts : List Stmt) (hM : M.Suits c) {inLoop : Bool}
    (hs : c.SoundStmts inLoop sts) (ha : firstRefusal (c.stmtsCoercions sts) = none) {inner next : Nat}
    (hin : inLoop = true → inner < next) :
    M.Follows (c.stmtsNodes inner next sts) inner (c.runAll M.ops sts) := by
  match sts with
  | [] => exact fun n s => by rw [stmtsNodes, runAll]; rfl
  | st :: sts =>
    obtain ⟨hfirst, hrest⟩ := hs.cons
    simp only [stmtsCoercions, Coercion.firstRefusal_append, Option.or_eq_none_iff] at ha
    rw [stmtsNodes, runAll]
    refine (stmtNodes_follows st hM hfirst ha.1 hin).append (stmtsNodes_follows sts hM hrest ha.2 ?_)
    exact fun h => Nat.lt_add_right _ (hin h)

end

end Typed.Context

end Numlet
