import Numlet.Proofs.Code.Layout
import Numlet.Proofs.Code.Validation

/-!
The locals that code names. The code of a sound tree names only locals with storage.
-/
namespace Numlet

/-- The locals that code names, in the order of its lines. -/
def Node.named (ns : List Node) : List String := (Node.flatten ns).filterMap Instr.local?

namespace Node

@[simp] theorem named_nil : named [] = [] := rfl

@[simp] theorem named_append (ns ms : List Node) : named (ns ++ ms) = named ns ++ named ms := by
  rw [named, flatten_append, List.filterMap_append]
  rfl

@[simp] theorem named_plain {i : Instr} (h : i.isPlain = true) (ns : List Node) :
    named (.plain i h :: ns) = i.local?.toList ++ named ns := by
  rw [named, flatten_cons, flat, List.singleton_append, List.filterMap_cons]
  cases i.local? <;> rfl

@[simp] theorem named_block (label : Label) (body : List Node) : named [.block label body] = named body := by
  simp [named, flat, List.filterMap_cons, Instr.local?]

@[simp] theorem named_loop (label : Label) (body : List Node) : named [.loop label body] = named body := by
  simp [named, flat, List.filterMap_cons, Instr.local?]

@[simp] theorem named_cond (r : Option NumType) (yes : List Node) (no : Option (List Node)) :
    named [.cond r yes no] = named yes ++ named (no.getD []) := by
  have helse : (Instr.orElse).local? = none := rfl
  have hfinish : (Instr.finish).local? = none := rfl
  cases no <;>
    simp [named, flat, flattenElse, Instr.local?_opening, helse, hfinish]

end Node

open Node (named)

theorem named_coerceNodes (source target : NumType) : named (coerceNodes source target) = [] := by
  unfold coerceNodes
  split
  · rfl
  · split <;> rfl

theorem named_conditionNodes (t : NumType) : named (conditionNodes t) = [] := by
  unfold conditionNodes
  split <;> rfl

theorem named_unaryNodes (op : UnaryOp) (t : NumType) : named (unaryNodes op t) = [] := by
  cases op with
  | plus | negate => rfl
  | not =>
    unfold unaryNodes
    cases t.isInteger <;> rfl

theorem named_numericNodes (op : BinaryOp) (t : NumType) : named (numericNodes op t) = [] := by
  unfold numericNodes
  split <;> rfl

theorem named_callNodes (callee : String) : named (callNodes callee) = [] := rfl

theorem named_truthNodes (t : NumType) : named (truthNodes t) = [] := rfl

namespace Typed.Context

variable {c : Context}

theorem named_loadNodes (x : String) (t : NumType) : named (c.loadNodes x t) = [x] := by
  rw [loadNodes, Node.named_plain, named_coerceNodes, List.append_nil]
  rfl

theorem named_storeNodes (x : String) (t : NumType) : named (c.storeNodes x t) = [x] := by
  rw [storeNodes, Node.named_append, named_coerceNodes, List.nil_append]
  rfl

mutual

/-- The code of a sound expression names locals with storage. -/
theorem exprNodes_named (e : Expr) (hs : c.Sound e) :
    ∀ x ∈ named (c.exprNodes e), (c.storage x).isSome = true := by
  match e with
  | .literal value t span =>
    rw [exprNodes]
    exact fun x hx => (nomatch hx)
  | .var x t span =>
    have hx : c.storage x = some t := hs.self
    rw [exprNodes, named_loadNodes, List.forall_mem_singleton, hx]
    rfl
  | .binary op left right operandType t span =>
    obtain ⟨hl, hr, -⟩ := hs.binary
    have hboth : ∀ x ∈ named (c.exprNodes left) ++ named (c.exprNodes right), (c.storage x).isSome = true :=
      List.forall_mem_append.mpr ⟨exprNodes_named left hl, exprNodes_named right hr⟩
    rw [exprNodes]
    split
    · simpa [named_conditionNodes, named_truthNodes, Instr.local?] using hboth
    · split
      · simpa [named_conditionNodes, named_truthNodes, Instr.local?] using hboth
      · simpa [named_coerceNodes, named_numericNodes] using hboth
  | .unary op operand t span =>
    rw [exprNodes, Node.named_append, named_unaryNodes, List.append_nil]
    exact exprNodes_named operand hs.unary.1
  | .update op x t span =>
    have hx : c.storage x = some t := hs.self
    rw [exprNodes, updateNodes]
    simp [named_loadNodes, named_storeNodes, Instr.local?, hx]
  | .assign x value t span =>
    obtain ⟨hvalue, hx, -⟩ := hs.assign
    rw [exprNodes, Node.named_append, Node.named_append, named_storeNodes, named_loadNodes]
    simp only [List.forall_mem_append, List.forall_mem_singleton, hx]
    exact ⟨⟨exprNodes_named value hvalue, rfl⟩, rfl⟩
  | .convert operand source target t span =>
    rw [exprNodes, Node.named_append, named_coerceNodes, List.append_nil]
    exact exprNodes_named operand hs.convert.1
  | .call callee arguments parameterTypes callSpan t span =>
    rw [exprNodes, Node.named_append, named_callNodes, List.append_nil]
    exact argumentNodes_named arguments parameterTypes hs.call.1

theorem argumentNodes_named (es : List Expr) (ts : List NumType)
    (hs : ∀ x ∈ partsOfExprs es, c.ExprOk x) :
    ∀ x ∈ named (c.argumentNodes es ts), (c.storage x).isSome = true := by
  match es, ts with
  | [], ts | es, [] => simp [argumentNodes]
  | e :: es, t :: ts =>
    simp only [partsOfExprs, List.forall_mem_append] at hs
    rw [argumentNodes, Node.named_append, Node.named_append, named_coerceNodes, List.append_nil,
      List.forall_mem_append]
    exact ⟨exprNodes_named e hs.1, argumentNodes_named es ts hs.2⟩

end

theorem testNodes_named (label : Nat) (e : Option Expr) (hs : ∀ x ∈ partsOfExpr? e, c.ExprOk x) :
    ∀ x ∈ named (c.testNodes label e), (c.storage x).isSome = true := by
  cases e with
  | none => simp [testNodes]
  | some e =>
    rw [testNodes, Node.named_append, Node.named_append, named_conditionNodes]
    simpa [Instr.local?] using exprNodes_named e hs

/-- What a statement computes and stores. -/
theorem storedNodes_named {x : String} {value : Expr} (hx : c.Holds x value.type) (hs : c.Sound value) :
    ∀ y ∈ named (c.exprNodes value ++ c.storeNodes x value.type), (c.storage y).isSome = true := by
  obtain ⟨t, hx, -⟩ := hx
  rw [Node.named_append, named_storeNodes, List.forall_mem_append, List.forall_mem_singleton, hx]
  exact ⟨exprNodes_named value hs, rfl⟩

mutual

/-- The code of a sound statement names locals with storage. -/
theorem stmtNodes_named (st : Stmt) {inLoop : Bool} (hs : c.SoundStmt inLoop st) (inner next : Nat) :
    ∀ x ∈ named (c.stmtNodes inner next st), (c.storage x).isSome = true := by
  match st with
  | .declare x value t span =>
    obtain ⟨⟨t', hx, -⟩, hvalue⟩ := hs.self
    rw [stmtNodes]
    cases value with
    | none =>
      rw [declareNodes, Node.named_append, named_storeNodes, Node.named_plain]
      simp [Instr.local?, hx]
    | some value => exact storedNodes_named (hvalue value rfl) hs.exprs
  | .assign x value span =>
    rw [stmtNodes]
    exact storedNodes_named hs.self hs.exprs
  | .branch condition yes no span =>
    obtain ⟨hcondition, hyes, hno⟩ := hs.branch
    rw [stmtNodes]
    simp only [Node.named_append, Node.named_cond, named_conditionNodes, List.append_nil,
      List.forall_mem_append]
    exact ⟨exprNodes_named condition hcondition, stmtNodes_named yes hyes inner next,
      elseNodes_named no hno inner _⟩
  | .loop start condition body step span =>
    obtain ⟨hstart, hcondition, hbody, hstep⟩ := hs.loop
    rw [stmtNodes]
    simp only [Node.named_append, Node.named_block, Node.named_loop, Node.named_plain, Instr.local?,
      Node.named_nil, Option.toList_none, List.append_nil, List.forall_mem_append]
    exact ⟨stmtNodes?_named start hstart inner next, ⟨testNodes_named _ condition hcondition,
      stmtNodes_named body hbody _ _⟩, stmtNodes?_named step hstep inner _⟩
  | .breakLoop span | .continueLoop span =>
    rw [stmtNodes]
    exact fun x hx => (nomatch hx)
  | .returnValue value span =>
    rw [stmtNodes]
    cases value with
    | none => exact fun x hx => (nomatch hx)
    | some value =>
      rw [returnNodes, Node.named_append, Node.named_append, Node.named_plain]
      cases c.result with
      | none => simpa [Instr.local?] using exprNodes_named value hs.exprs
      | some r => simpa [Instr.local?, named_coerceNodes] using exprNodes_named value hs.exprs
  | .print value span =>
    rw [stmtNodes, Node.named_append, named_callNodes, List.append_nil]
    exact exprNodes_named value hs.exprs
  | .block body span =>
    rw [stmtNodes]
    exact stmtsNodes_named body hs.block inner next
  | .expression value =>
    rw [stmtNodes, Node.named_append, Node.named_plain]
    simpa [Instr.local?] using exprNodes_named value hs.exprs
  | .call callee es ts span =>
    have hdrop : named (if (c.resultOf callee).isSome then [.plain .drop rfl] else []) = [] := by
      split <;> rfl
    rw [stmtNodes, Node.named_append, Node.named_append, named_callNodes, hdrop, List.append_nil,
      List.append_nil]
    exact argumentNodes_named es ts hs.exprs

theorem stmtNodes?_named (st : Option Stmt) {inLoop : Bool} (hs : c.SoundStmt? inLoop st)
    (inner next : Nat) : ∀ x ∈ named (c.stmtNodes? inner next st), (c.storage x).isSome = true := by
  match st with
  | none => simp [stmtNodes?]
  | some st =>
    rw [stmtNodes?]
    exact stmtNodes_named st hs.some inner next

theorem elseNodes_named (st : Option Stmt) {inLoop : Bool} (hs : c.SoundStmt? inLoop st)
    (inner next : Nat) :
    ∀ x ∈ named ((c.elseNodes inner next st).getD []), (c.storage x).isSome = true := by
  match st with
  | none => simp [elseNodes]
  | some st =>
    rw [elseNodes]
    split
    · simp
    · exact stmtNodes_named st hs.some inner next

theorem stmtsNodes_named (sts : List Stmt) {inLoop : Bool} (hs : c.SoundStmts inLoop sts)
    (inner next : Nat) : ∀ x ∈ named (c.stmtsNodes inner next sts), (c.storage x).isSome = true := by
  match sts with
  | [] => simp [stmtsNodes]
  | st :: sts =>
    obtain ⟨hfirst, hrest⟩ := hs.cons
    rw [stmtsNodes, Node.named_append, List.forall_mem_append]
    exact ⟨stmtNodes_named st hfirst inner next, stmtsNodes_named sts hrest inner _⟩

end

end Typed.Context

/-- The code of a function names locals with storage. -/
theorem Typed.Function.storage_of_named {f : Function} {p : Program}
    (hs : (f.context p).SoundStmts false f.body) {x : String} (hx : x ∈ named (f.nodes p)) :
    ∃ t, f.storage.find? x = some t := by
  have hend : named f.endNodes = [] := by
    unfold endNodes
    split <;> rfl
  rw [nodes, Node.named_append, hend, List.append_nil] at hx
  exact Option.isSome_iff_exists.mp (Context.stmtsNodes_named f.body hs 0 0 x hx)

end Numlet
