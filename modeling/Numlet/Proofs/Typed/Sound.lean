import Mathlib.Data.List.Forall2
import Numlet.Proofs.Check.Run
import Numlet.Proofs.Typed.Parts

/-!
What makes the tree of a body sound: every node fits the types of the locals, the signatures of the
callees and the result of the function. Each condition looks at one node only.
-/
namespace Numlet.Typed

/-- What the nodes of one body are measured against. -/
structure Context where
  storage : String → Option NumType
  /-- The type of the local that code has for a slot. -/
  slotType : String → NumType
  signature : String → Option (List NumType × Option NumType)
  result : Option NumType

/-- A parameter has its own type in the code, any other local that of its storage. -/
def Function.slotType (f : Function) (x : String) : NumType :=
  ((f.parameters.find? (·.name == x)).map (·.type)).getD ((f.storage.find? x).getD .i32)

/-- The context of a function in its program. -/
def Function.context (f : Function) (p : Program) : Context :=
  ⟨f.storage.find?, f.slotType, p.signature?, f.result⟩

/-- Arguments that fit parameters, one by one. -/
def Fits (arguments : List Expr) (parameterTypes : List NumType) : Prop :=
  List.Forall₂ (fun a t => a.type.rank ≤ t.rank) arguments parameterTypes

namespace Context

variable (c : Context)

/-- A local can hold values of a type. -/
def Holds (slot : String) (type : NumType) : Prop :=
  ∃ t, c.storage slot = some t ∧ type.rank ≤ t.rank

/-- The condition on one expression. -/
def ExprOk : Expr → Prop
  | .literal value type _ => ∃ hint, type = value.typeFor hint
  | .var slot type _ | .update _ slot type _ => c.storage slot = some type
  | .binary op left right operandType type _ => op.Types left.type right.type operandType type
  | .unary op operand type _ => type = if op = .not then .i32 else operand.type
  | .assign slot value type _ => c.storage slot = some type ∧ value.type.rank ≤ type.rank
  | .convert operand source target type _ => source = operand.type ∧ type = target
  | .call callee arguments parameterTypes _ _ _ =>
    (∃ r, c.signature callee = some (parameterTypes, some r)) ∧ Fits arguments parameterTypes

/-- The condition on one statement. -/
def StmtOk : Stmt → Prop
  | .declare slot value type _ => c.Holds slot type ∧ ∀ v, value = some v → c.Holds slot v.type
  | .assign slot value _ => c.Holds slot value.type
  | .returnValue (some value) _ => ∃ r, c.result = some r ∧ value.type.rank ≤ r.rank
  | .returnValue none _ => c.result = none
  | .call callee arguments parameterTypes _ =>
    (∃ r, c.signature callee = some (parameterTypes, r)) ∧ Fits arguments parameterTypes
  | .branch .. | .loop .. | .breakLoop _ | .continueLoop _ | .print .. | .block ..
  | .expression _ => True

/-- All of an expression is sound. -/
def Sound (e : Expr) : Prop := ∀ x ∈ e.parts, c.ExprOk x

end Context

mutual

/-- Breaks and continues stand in loops only. -/
def Stmt.JumpsOk (inLoop : Bool) : Stmt → Prop
  | .branch _ yes no _ => yes.JumpsOk inLoop ∧ jumpsOk? inLoop no
  | .loop start _ body step _ =>
    jumpsOk? inLoop start ∧ body.JumpsOk true ∧ jumpsOk? inLoop step
  | .breakLoop _ | .continueLoop _ => inLoop = true
  | .block body _ => jumpsOkAll inLoop body
  | .declare .. | .assign .. | .returnValue .. | .print .. | .expression _ | .call .. => True

def jumpsOk? (inLoop : Bool) : Option Stmt → Prop
  | none => True
  | some s => s.JumpsOk inLoop

def jumpsOkAll (inLoop : Bool) : List Stmt → Prop
  | [] => True
  | s :: ss => s.JumpsOk inLoop ∧ jumpsOkAll inLoop ss

end

/-- All of a statement is sound. -/
structure Context.SoundStmt (c : Context) (inLoop : Bool) (s : Stmt) : Prop where
  exprs : ∀ x ∈ s.exprs, c.ExprOk x
  stmts : ∀ x ∈ s.parts, c.StmtOk x
  jumps : s.JumpsOk inLoop

structure Context.SoundStmts (c : Context) (inLoop : Bool) (ss : List Stmt) : Prop where
  exprs : ∀ x ∈ exprsOfStmts ss, c.ExprOk x
  stmts : ∀ x ∈ partsOfStmts ss, c.StmtOk x
  jumps : jumpsOkAll inLoop ss

structure Context.SoundStmt? (c : Context) (inLoop : Bool) (s : Option Stmt) : Prop where
  exprs : ∀ x ∈ exprsOfStmt? s, c.ExprOk x
  stmts : ∀ x ∈ partsOfStmt? s, c.StmtOk x
  jumps : jumpsOk? inLoop s

namespace Context

variable {c : Context} {inLoop : Bool}

theorem Sound.self {e : Expr} (h : c.Sound e) : c.ExprOk e := by
  apply h
  cases e <;> simp [Expr.parts]

theorem Sound.binary {op : BinaryOp} {l r : Expr} {ot t : NumType} {sp : Span}
    (h : c.Sound (.binary op l r ot t sp)) :
    c.Sound l ∧ c.Sound r ∧ op.Types l.type r.type ot t := by
  simp only [Sound, Expr.parts, List.forall_mem_append, List.forall_mem_singleton] at h
  exact ⟨h.1.1, h.1.2, h.2⟩

theorem Sound.unary {op : UnaryOp} {e : Expr} {t : NumType} {sp : Span}
    (h : c.Sound (.unary op e t sp)) : c.Sound e ∧ t = if op = .not then .i32 else e.type := by
  simp only [Sound, Expr.parts, List.forall_mem_append, List.forall_mem_singleton] at h
  exact h

theorem Sound.assign {x : String} {v : Expr} {t : NumType} {sp : Span}
    (h : c.Sound (.assign x v t sp)) :
    c.Sound v ∧ c.storage x = some t ∧ v.type.rank ≤ t.rank := by
  simp only [Sound, Expr.parts, List.forall_mem_append, List.forall_mem_singleton] at h
  exact h

theorem Sound.convert {e : Expr} {source target t : NumType} {sp : Span}
    (h : c.Sound (.convert e source target t sp)) :
    c.Sound e ∧ source = e.type ∧ t = target := by
  simp only [Sound, Expr.parts, List.forall_mem_append, List.forall_mem_singleton] at h
  exact h

theorem Sound.call {f : String} {es : List Expr} {ts : List NumType} {t : NumType} {sp sp' : Span}
    (h : c.Sound (.call f es ts sp t sp')) :
    (∀ x ∈ partsOfExprs es, c.ExprOk x) ∧ (∃ r, c.signature f = some (ts, some r)) ∧ Fits es ts := by
  simp only [Sound, Expr.parts, List.forall_mem_append, List.forall_mem_singleton] at h
  exact h

theorem SoundStmt.branch {e : Expr} {yes : Stmt} {no : Option Stmt} {sp : Span}
    (h : c.SoundStmt inLoop (.branch e yes no sp)) :
    c.Sound e ∧ c.SoundStmt inLoop yes ∧ c.SoundStmt? inLoop no := by
  obtain ⟨he, hs, hj⟩ := h
  simp only [Stmt.exprs, Stmt.parts, List.forall_mem_append] at he hs
  exact ⟨he.1.1, ⟨he.1.2, hs.1.1, hj.1⟩, ⟨he.2, hs.1.2, hj.2⟩⟩

theorem SoundStmt.loop {start step : Option Stmt} {e : Option Expr} {body : Stmt} {sp : Span}
    (h : c.SoundStmt inLoop (.loop start e body step sp)) :
    c.SoundStmt? inLoop start ∧ (∀ x ∈ partsOfExpr? e, c.ExprOk x) ∧ c.SoundStmt true body ∧
      c.SoundStmt? inLoop step := by
  obtain ⟨he, hs, hj⟩ := h
  simp only [Stmt.exprs, Stmt.parts, List.forall_mem_append] at he hs
  exact ⟨⟨he.1.1.1, hs.1.1.1, hj.1⟩, he.1.1.2, ⟨he.1.2, hs.1.1.2, hj.2.1⟩,
    ⟨he.2, hs.1.2, hj.2.2⟩⟩

theorem SoundStmt.block {body : List Stmt} {sp : Span}
    (h : c.SoundStmt inLoop (.block body sp)) : c.SoundStmts inLoop body := by
  obtain ⟨he, hs, hj⟩ := h
  simp only [Stmt.parts, List.forall_mem_append] at hs
  exact ⟨he, hs.1, hj⟩

theorem SoundStmts.cons {s : Stmt} {ss : List Stmt} (h : c.SoundStmts inLoop (s :: ss)) :
    c.SoundStmt inLoop s ∧ c.SoundStmts inLoop ss := by
  obtain ⟨he, hs, hj⟩ := h
  simp only [exprsOfStmts, partsOfStmts, List.forall_mem_append] at he hs
  exact ⟨⟨he.1, hs.1, hj.1⟩, ⟨he.2, hs.2, hj.2⟩⟩

theorem SoundStmt?.some {s : Stmt} (h : c.SoundStmt? inLoop (some s)) : c.SoundStmt inLoop s :=
  ⟨h.exprs, h.stmts, h.jumps⟩

theorem SoundStmt.self {s : Stmt} (h : c.SoundStmt inLoop s) : c.StmtOk s := by
  apply h.stmts
  cases s <;> simp [Stmt.parts]

end Context

end Numlet.Typed
