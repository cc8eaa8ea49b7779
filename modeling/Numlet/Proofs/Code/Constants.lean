import Numlet.Proofs.Code.Programs

/-!
The constants in code. Each is a literal of the tree, or an operator, a condition or a declaration brings it
along. The code of a sound tree has them in the order in which the tree is run, each literal once.
-/
namespace Numlet

/-- A constant in code. Other than the literals of the tree there are only zeros, ones and minus ones. -/
inductive Constant
  | written (type : NumType) (value : Literal)
  | zero (type : NumType)
  | one (type : NumType)
  | minusOne (type : NumType)
deriving DecidableEq, Repr

namespace Constant

def instr : Constant → Instr
  | written t value => .const t value
  | zero t => .const t (.int 0)
  | one t => .const t (.int 1)
  | minusOne t => .const t (.int (-1))

/-- The literal that a constant stands for, with its type in the code. -/
def written? : Constant → Option (NumType × Literal)
  | written t value => some (t, value)
  | zero _ | one _ | minusOne _ => none

/-- What is compared with a value of type `t` to make a condition of it. -/
def ofCondition (t : NumType) : List Constant := if t = .i32 then [] else [.zero t]

def ofUnary (op : UnaryOp) (t : NumType) : List Constant :=
  match op with
  | .plus => []
  | .negate => [.minusOne t]
  | .not => if t.isInteger then [] else [.zero t]

theorem filterMap_ofCondition (t : NumType) : (ofCondition t).filterMap written? = [] := by
  unfold ofCondition
  split <;> rfl

theorem filterMap_ofUnary (op : UnaryOp) (t : NumType) : (ofUnary op t).filterMap written? = [] := by
  cases op with
  | plus | negate => rfl
  | not =>
    unfold ofUnary
    cases t.isInteger <;> rfl

end Constant

def Instr.isConst : Instr → Bool
  | .const _ _ => true
  | _ => false

namespace Typed

mutual

/-- The constants of an expression, in the order of its code. -/
def Expr.constants : Expr → List Constant
  | .literal value t _ => [.written t value]
  | .var _ _ _ => []
  | .binary op left right _ _ _ =>
    if op = .and then
      left.constants ++ Constant.ofCondition left.type ++ right.constants ++ [.zero right.type, .zero .i32]
    else if op = .or then
      left.constants ++ Constant.ofCondition left.type ++ [.one .i32] ++ right.constants ++
        [.zero right.type]
    else left.constants ++ right.constants
  | .unary op operand _ _ => operand.constants ++ Constant.ofUnary op operand.type
  | .update _ _ t _ => [.one t]
  | .assign _ value _ _ => value.constants
  | .convert operand _ _ _ _ => operand.constants
  | .call _ arguments _ _ _ _ => constantsOfExprs arguments

def constantsOfExprs : List Expr → List Constant
  | [] => []
  | e :: es => e.constants ++ constantsOfExprs es

end

/-- The constants of an expression whose value is wanted as a condition. -/
def Expr.conditionConstants (e : Expr) : List Constant := e.constants ++ Constant.ofCondition e.type

mutual

/-- The constants of a statement. A declaration without a value stores a zero. -/
def Stmt.constants : Stmt → List Constant
  | .declare _ (some value) _ _ | .assign _ value _ | .returnValue (some value) _ | .print value _
  | .expression value => value.constants
  | .declare _ none t _ => [.zero t]
  | .branch condition yes no _ => condition.conditionConstants ++ yes.constants ++ constantsOfStmt? no
  | .loop start condition body step _ =>
    constantsOfStmt? start ++ (condition.map Expr.conditionConstants).getD [] ++ body.constants ++
      constantsOfStmt? step
  | .breakLoop _ | .continueLoop _ | .returnValue none _ => []
  | .block body _ => constantsOfStmts body
  | .call _ arguments _ _ => constantsOfExprs arguments

def constantsOfStmt? : Option Stmt → List Constant
  | none => []
  | some s => s.constants

def constantsOfStmts : List Stmt → List Constant
  | [] => []
  | s :: ss => s.constants ++ constantsOfStmts ss

end

/-- A literal with the type that it was checked at. -/
def Expr.typedLiteral? : Expr → Option (NumType × Literal)
  | .literal value t _ => some (t, value)
  | _ => none

section Written

mutual

/-- The constants that are written in an expression are its literals. -/
theorem Expr.written_constants (e : Expr) :
    e.constants.filterMap Constant.written? = e.parts.filterMap Expr.typedLiteral? := by
  match e with
  | .literal value t span | .var slot t span | .update op slot t span => rfl
  | .binary op left right operandType t span =>
    have hall : (Expr.parts (.binary op left right operandType t span)).filterMap Expr.typedLiteral? =
        left.constants.filterMap Constant.written? ++ right.constants.filterMap Constant.written? := by
      rw [Expr.parts, List.filterMap_append, List.filterMap_append, Expr.written_constants left,
        Expr.written_constants right]
      exact List.append_nil _
    rw [hall, Expr.constants]
    split
    · simp [Constant.filterMap_ofCondition, Constant.written?]
    · split
      · simp [Constant.filterMap_ofCondition, List.filterMap_cons, Constant.written?]
      · rw [List.filterMap_append]
  | .unary op operand t span =>
    rw [Expr.constants, Expr.parts, List.filterMap_append, List.filterMap_append,
      Constant.filterMap_ofUnary, Expr.written_constants operand]
    rfl
  | .assign slot value t span =>
    rw [Expr.constants, Expr.parts, List.filterMap_append, Expr.written_constants value]
    exact (List.append_nil _).symm
  | .convert operand source target t span =>
    rw [Expr.constants, Expr.parts, List.filterMap_append, Expr.written_constants operand]
    exact (List.append_nil _).symm
  | .call callee arguments parameterTypes callSpan t span =>
    rw [Expr.constants, Expr.parts, List.filterMap_append, written_constantsOfExprs arguments]
    exact (List.append_nil _).symm

theorem written_constantsOfExprs (es : List Expr) :
    (constantsOfExprs es).filterMap Constant.written? =
      (partsOfExprs es).filterMap Expr.typedLiteral? := by
  match es with
  | [] => rfl
  | e :: es =>
    rw [constantsOfExprs, partsOfExprs, List.filterMap_append, List.filterMap_append,
      Expr.written_constants e, written_constantsOfExprs es]

end

theorem Expr.written_conditionConstants (e : Expr) :
    e.conditionConstants.filterMap Constant.written? = e.parts.filterMap Expr.typedLiteral? := by
  rw [Expr.conditionConstants, List.filterMap_append, Constant.filterMap_ofCondition, List.append_nil,
    Expr.written_constants]

mutual

theorem Stmt.written_constants (s : Stmt) :
    s.constants.filterMap Constant.written? = s.exprs.filterMap Expr.typedLiteral? := by
  match s with
  | .declare slot (some value) t span => exact value.written_constants
  | .declare slot none t span => rfl
  | .assign slot value span => exact value.written_constants
  | .branch condition yes no span =>
    rw [Stmt.constants, Stmt.exprs]
    simp only [List.filterMap_append, condition.written_conditionConstants, Stmt.written_constants yes,
      written_constantsOfStmt? no]
  | .loop start condition body step span =>
    have hcondition : ((condition.map Expr.conditionConstants).getD []).filterMap Constant.written? =
        (partsOfExpr? condition).filterMap Expr.typedLiteral? := by
      cases condition with
      | none => rfl
      | some e => exact e.written_conditionConstants
    rw [Stmt.constants, Stmt.exprs]
    simp only [List.filterMap_append, hcondition, Stmt.written_constants body, written_constantsOfStmt? start,
      written_constantsOfStmt? step]
  | .breakLoop span | .continueLoop span => rfl
  | .returnValue (some value) span => exact value.written_constants
  | .returnValue none span => rfl
  | .print value span => exact value.written_constants
  | .block body span => exact written_constantsOfStmts body
  | .expression value => exact value.written_constants
  | .call callee arguments parameterTypes span => exact written_constantsOfExprs arguments

theorem written_constantsOfStmt? (s : Option Stmt) :
    (constantsOfStmt? s).filterMap Constant.written? = (exprsOfStmt? s).filterMap Expr.typedLiteral? := by
  match s with
  | none => rfl
  | some s => exact s.written_constants

theorem written_constantsOfStmts (ss : List Stmt) :
    (constantsOfStmts ss).filterMap Constant.written? =
      (exprsOfStmts ss).filterMap Expr.typedLiteral? := by
  match ss with
  | [] => rfl
  | s :: ss =>
    rw [constantsOfStmts, exprsOfStmts, List.filterMap_append, List.filterMap_append, s.written_constants,
      written_constantsOfStmts ss]

end

end Written

end Typed

/-- The constants of nodes, in the order of their lines. -/
def Node.consts (ns : List Node) : List Instr := (Node.flatten ns).filter Instr.isConst

namespace Node

@[simp] theorem consts_nil : consts [] = [] := rfl

@[simp] theorem consts_append (ns ms : List Node) : consts (ns ++ ms) = consts ns ++ consts ms := by
  rw [consts, flatten_append, List.filter_append]
  rfl

@[simp] theorem consts_plain {i : Instr} (h : i.isPlain = true) (ns : List Node) :
    consts (.plain i h :: ns) = [i].filter Instr.isConst ++ consts ns := by
  rw [consts, flatten_cons, flat, List.filter_append]
  rfl

@[simp] theorem consts_block (label : Label) (body : List Node) :
    consts [.block label body] = consts body := by
  simp [consts, flat, Instr.isConst]

@[simp] theorem consts_loop (label : Label) (body : List Node) :
    consts [.loop label body] = consts body := by
  simp [consts, flat, Instr.isConst]

@[simp] theorem consts_cond (r : Option NumType) (yes : List Node) (no : Option (List Node)) :
    consts [.cond r yes no] = consts yes ++ consts (no.getD []) := by
  have hopening : ∀ code, (opening r :: code).filter Instr.isConst = code.filter Instr.isConst := by
    cases r <;> exact fun _ => rfl
  have helse : ∀ code, (Instr.orElse :: code).filter Instr.isConst = code.filter Instr.isConst :=
    fun _ => rfl
  have hfinish : [Instr.finish].filter Instr.isConst = [] := rfl
  cases no with
  | none => simp only [consts, flatten_cons, flatten_nil, flat, flattenElse, hopening, hfinish,
      List.filter_append, List.append_nil, Option.getD_none, List.filter_nil]
  | some no => simp only [consts, flatten_cons, flatten_nil, flat, flattenElse, hopening, helse, hfinish,
      List.filter_append, List.append_nil, Option.getD_some]

end Node

open Node (consts)

theorem consts_coerceNodes (source target : NumType) : consts (coerceNodes source target) = [] := by
  unfold coerceNodes
  split
  · rfl
  · split <;> rfl

theorem consts_numericNodes (op : BinaryOp) (t : NumType) : consts (numericNodes op t) = [] := by
  unfold numericNodes
  split <;> rfl

theorem consts_callNodes (callee : String) : consts (callNodes callee) = [] := rfl

theorem consts_truthNodes (t : NumType) : consts (truthNodes t) = [(Constant.zero t).instr] := rfl

theorem consts_conditionNodes (t : NumType) :
    consts (conditionNodes t) = (Constant.ofCondition t).map Constant.instr := by
  unfold conditionNodes Constant.ofCondition
  split <;> rfl

theorem consts_unaryNodes (op : UnaryOp) (t : NumType) :
    consts (unaryNodes op t) = (Constant.ofUnary op t).map Constant.instr := by
  cases op with
  | plus | negate => rfl
  | not =>
    unfold unaryNodes Constant.ofUnary
    cases t.isInteger <;> rfl

namespace Typed.Context

variable {c : Context}

theorem consts_loadNodes (x : String) (t : NumType) : consts (c.loadNodes x t) = [] := by
  rw [loadNodes, Node.consts_plain, consts_coerceNodes]
  rfl

theorem consts_storeNodes (x : String) (t : NumType) : consts (c.storeNodes x t) = [] := by
  rw [storeNodes, Node.consts_append, consts_coerceNodes]
  rfl

mutual

/-- The code of a sound expression has the constants of the expression. -/
theorem exprNodes_consts (e : Expr) (hs : c.Sound e) :
    consts (c.exprNodes e) = e.constants.map Constant.instr := by
  match e with
  | .literal value t span => rw [exprNodes]; rfl
  | .var x t span =>
    rw [exprNodes, consts_loadNodes]
    rfl
  | .binary op left right operandType t span =>
    obtain ⟨hl, hr, -⟩ := hs.binary
    rw [exprNodes, Expr.constants]
    split
    · simp [exprNodes_consts left hl, exprNodes_consts right hr, consts_conditionNodes, consts_truthNodes,
        Instr.isConst, Constant.instr]
    · split
      · simp [exprNodes_consts left hl, exprNodes_consts right hr, consts_conditionNodes,
          consts_truthNodes, List.filter_cons, Instr.isConst, Constant.instr]
      · simp [exprNodes_consts left hl, exprNodes_consts right hr, consts_coerceNodes,
          consts_numericNodes]
  | .unary op operand t span =>
    rw [exprNodes, Expr.constants, Node.consts_append, List.map_append, consts_unaryNodes,
      exprNodes_consts operand hs.unary.1]
  | .update op x t span =>
    rw [exprNodes, updateNodes]
    simp [consts_loadNodes, consts_storeNodes, Instr.isConst, Expr.constants, Constant.instr]
  | .assign x value t span =>
    rw [exprNodes, Expr.constants, Node.consts_append, Node.consts_append, consts_storeNodes,
      consts_loadNodes, List.append_nil, List.append_nil, exprNodes_consts value hs.assign.1]
  | .convert operand source target t span =>
    rw [exprNodes, Expr.constants, Node.consts_append, consts_coerceNodes, List.append_nil,
      exprNodes_consts operand hs.convert.1]
  | .call callee arguments parameterTypes callSpan t span =>
    obtain ⟨harguments, -, hfits⟩ := hs.call
    rw [exprNodes, Expr.constants, Node.consts_append, consts_callNodes, List.append_nil,
      argumentNodes_consts arguments parameterTypes harguments hfits]

theorem argumentNodes_consts (es : List Expr) (ts : List NumType)
    (hs : ∀ x ∈ partsOfExprs es, c.ExprOk x) (hfits : Fits es ts) :
    consts (c.argumentNodes es ts) = (constantsOfExprs es).map Constant.instr := by
  match es, ts with
  | [], ts => rw [argumentNodes.eq_def]; rfl
  | e :: es, [] => cases hfits
  | e :: es, t :: ts =>
    simp only [partsOfExprs, List.forall_mem_append] at hs
    obtain - | ⟨-, hrest⟩ := hfits
    rw [argumentNodes, constantsOfExprs, Node.consts_append, Node.consts_append, consts_coerceNodes,
      List.append_nil, List.map_append, exprNodes_consts e hs.1, argumentNodes_consts es ts hs.2 hrest]

end

theorem conditionNodes_consts {e : Expr} (hs : c.Sound e) :
    consts (c.exprNodes e ++ conditionNodes e.type) = e.conditionConstants.map Constant.instr := by
  rw [Node.consts_append, exprNodes_consts e hs, consts_conditionNodes, Expr.conditionConstants,
    List.map_append]

theorem testNodes_consts (label : Nat) (e : Option Expr) (hs : ∀ x ∈ partsOfExpr? e, c.ExprOk x) :
    consts (c.testNodes label e) =
      ((e.map Expr.conditionConstants).getD []).map Constant.instr := by
  cases e with
  | none => rfl
  | some e =>
    rw [testNodes, Node.consts_append, conditionNodes_consts hs]
    exact List.append_nil _

mutual

/-- The code of a sound statement has the constants of the statement. -/
theorem stmtNodes_consts (st : Stmt) {inLoop : Bool} (hs : c.SoundStmt inLoop st) (inner next : Nat) :
    consts (c.stmtNodes inner next st) = st.constants.map Constant.instr := by
  match st with
  | .declare x (some value) t span =>
    rw [stmtNodes, declareNodes, Stmt.constants, Node.consts_append, consts_storeNodes, List.append_nil,
      exprNodes_consts value hs.exprs]
  | .declare x none t span =>
    rw [stmtNodes, declareNodes, Node.consts_append, consts_storeNodes]
    rfl
  | .assign x value span =>
    rw [stmtNodes, Stmt.constants, Node.consts_append, consts_storeNodes, List.append_nil,
      exprNodes_consts value hs.exprs]
  | .branch condition yes no span =>
    obtain ⟨hcondition, hyes, hno⟩ := hs.branch
    rw [stmtNodes, Stmt.constants, Node.consts_append, conditionNodes_consts hcondition, Node.consts_cond,
      stmtNodes_consts yes hyes, elseNodes_consts no hno, List.map_append, List.map_append,
      List.append_assoc]
  | .loop start condition body step span =>
    obtain ⟨hstart, hcondition, hbody, hstep⟩ := hs.loop
    rw [stmtNodes, Stmt.constants]
    simp only [Node.consts_append, Node.consts_block, Node.consts_loop, Node.consts_plain, Instr.isConst,
      Node.consts_nil, List.filter_cons, List.filter_nil, Bool.false_eq_true, if_false, List.append_nil,
      stmtNodes?_consts start hstart, testNodes_consts _ condition hcondition, stmtNodes_consts body hbody,
      stmtNodes?_consts step hstep, List.map_append, List.append_assoc]
  | .breakLoop span | .continueLoop span =>
    rw [stmtNodes]
    rfl
  | .returnValue (some value) span =>
    have hresult : consts ((c.result.map (coerceNodes value.type)).getD []) = [] := by
      cases c.result with
      | none => rfl
      | some r => exact consts_coerceNodes _ _
    rw [stmtNodes, returnNodes, Stmt.constants, Node.consts_append, Node.consts_append, hresult,
      exprNodes_consts value hs.exprs, List.append_nil]
    exact List.append_nil _
  | .returnValue none span =>
    rw [stmtNodes]
    rfl
  | .print value span =>
    rw [stmtNodes, Stmt.constants, Node.consts_append, consts_callNodes, List.append_nil,
      exprNodes_consts value hs.exprs]
  | .block body span =>
    rw [stmtNodes, Stmt.constants, stmtsNodes_consts body hs.block]
  | .expression value =>
    rw [stmtNodes, Stmt.constants, Node.consts_append, exprNodes_consts value hs.exprs]
    exact List.append_nil _
  | .call callee es ts span =>
    have hdrop : consts (if (c.resultOf callee).isSome then [.plain .drop rfl] else []) = [] := by
      split <;> rfl
    rw [stmtNodes, Stmt.constants, Node.consts_append, Node.consts_append, consts_callNodes, hdrop,
      List.append_nil, List.append_nil, argumentNodes_consts es ts hs.exprs hs.self.2]

theorem stmtNodes?_consts (st : Option Stmt) {inLoop : Bool} (hs : c.SoundStmt? inLoop st)
    (inner next : Nat) :
    consts (c.stmtNodes? inner next st) = (constantsOfStmt? st).map Constant.instr := by
  match st with
  | none => rfl
  | some st =>
    rw [stmtNodes?, constantsOfStmt?, stmtNodes_consts st hs.some]

theorem elseNodes_consts (st : Option Stmt) {inLoop : Bool} (hs : c.SoundStmt? inLoop st)
    (inner next : Nat) :
    consts ((c.elseNodes inner next st).getD []) = (constantsOfStmt? st).map Constant.instr := by
  match st with
  | none => rfl
  | some st =>
    rw [elseNodes, constantsOfStmt?]
    split
    · next hempty =>
      obtain ⟨span, rfl⟩ := Stmt.isEmptyBlock_iff.mp hempty
      rfl
    · exact stmtNodes_consts st hs.some inner next

theorem stmtsNodes_consts (sts : List Stmt) {inLoop : Bool} (hs : c.SoundStmts inLoop sts)
    (inner next : Nat) :
    consts (c.stmtsNodes inner next sts) = (constantsOfStmts sts).map Constant.instr := by
  match sts with
  | [] => rfl
  | st :: sts =>
    obtain ⟨hfirst, hrest⟩ := hs.cons
    rw [stmtsNodes, constantsOfStmts, Node.consts_append, List.map_append,
      stmtNodes_consts st hfirst, stmtsNodes_consts sts hrest]

end

end Typed.Context

/-- The constants of a function. -/
def Typed.Function.constants (f : Function) : List Constant := constantsOfStmts f.body

theorem Typed.Function.code_consts {f : Function} {p : Program}
    (hs : (f.context p).SoundStmts false f.body) :
    (f.code p).filter Instr.isConst = f.constants.map Constant.instr := by
  have hend : consts f.endNodes = [] := by
    unfold endNodes
    split <;> rfl
  change consts (f.nodes p) = _
  rw [nodes, Node.consts_append, hend, List.append_nil, Context.stmtsNodes_consts f.body hs]
  rfl

end Numlet
