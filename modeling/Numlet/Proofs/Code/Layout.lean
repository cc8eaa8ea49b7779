import Numlet.Proofs.Code.Nodes
import Numlet.Proofs.Typed.Sound

/-!
The code of a sound tree, as nodes. Loops are numbered in the order in which they are entered; `inner` is
the loop around a statement and `next` the first number that is free before it.
-/
namespace Numlet

/-- What turns the value on top of the stack into one of another type. -/
def coerceNodes (source target : NumType) : List Node :=
  if source = target then []
  else match Conversion.between? source target with
    | some c => [.plain (.convert c) rfl]
    | none => []

def truthNodes (t : NumType) : List Node := [.plain (.const t (.int 0)) rfl, .plain (.numeric .ne t) rfl]

def conditionNodes (t : NumType) : List Node := if t = .i32 then [] else truthNodes t

def unaryNodes (op : UnaryOp) (t : NumType) : List Node :=
  match op with
  | .plus => []
  | .negate => [.plain (.const t (.int (-1))) rfl, .plain (.numeric .mul t) rfl]
  | .not =>
    if t.isInteger then [.plain (.eqz t) rfl]
    else [.plain (.const t (.int 0)) rfl, .plain (.numeric .eq t) rfl]

def numericNodes (op : BinaryOp) (t : NumType) : List Node :=
  match NumericOp.ofBinary? op t with
  | some numeric => [.plain (.numeric numeric t) rfl]
  | none => []

theorem BinaryOp.isLogical_eq_false {op : BinaryOp} (hand : op ≠ .and) (hor : op ≠ .or) :
    op.isLogical = false := by
  cases op with
  | and => exact absurd rfl hand
  | or => exact absurd rfl hor
  | add | subtract | multiply | divide | remainder | equals | notEquals | less | lessEquals | greater
  | greaterEquals => rfl

/-- An operation that is not logical has an instruction. -/
theorem BinaryOp.Types.exists_numeric {op : BinaryOp} {l r ot t : NumType} (h : op.Types l r ot t)
    (hop : op.isLogical = false) : ∃ n, NumericOp.ofBinary? op ot = some n := by
  rw [BinaryOp.Types, hop, if_neg (by simp)] at h
  cases op with
  | and | or => cases hop
  | remainder => exact ⟨.rem, by rw [NumericOp.ofBinary?, h.2.1 rfl]; rfl⟩
  | add | subtract | multiply | divide | equals | notEquals | less | lessEquals | greater
  | greaterEquals => exact ⟨_, rfl⟩

def UpdateOp.numeric : UpdateOp → NumericOp
  | .increment => .add
  | .decrement => .sub

def callNodes (callee : String) : List Node := [.plain (.call (Host.resolve callee)) rfl]

namespace Typed

mutual

/-- How many loops a statement holds. -/
def Stmt.loopCount : Stmt → Nat
  | .branch _ yes no _ => yes.loopCount + loopCount? no
  | .loop start _ body step _ => loopCount? start + 1 + body.loopCount + loopCount? step
  | .block body _ => loopCountAll body
  | .declare .. | .assign .. | .breakLoop _ | .continueLoop _ | .returnValue .. | .print ..
  | .expression _ | .call .. => 0

def loopCount? : Option Stmt → Nat
  | none => 0
  | some s => s.loopCount

def loopCountAll : List Stmt → Nat
  | [] => 0
  | s :: ss => s.loopCount + loopCountAll ss

end

theorem Stmt.isEmptyBlock_iff {s : Stmt} : s.isEmptyBlock = true ↔ ∃ span, s = .block [] span := by
  cases s with
  | block body span => cases body <;> simp [Stmt.isEmptyBlock]
  | declare | assign | branch | loop | breakLoop | continueLoop | returnValue | print | expression
  | call => simp [Stmt.isEmptyBlock]

namespace Context

variable (c : Context)

/-- The result of a callee. -/
def resultOf (callee : String) : Option NumType := (c.signature callee).bind (·.2)

def loadNodes (slot : String) (t : NumType) : List Node :=
  .plain (.getLocal slot) rfl :: coerceNodes (c.slotType slot) t

def storeNodes (slot : String) (t : NumType) : List Node :=
  coerceNodes t (c.slotType slot) ++ [.plain (.setLocal slot) rfl]

def updateNodes (op : UpdateOp) (slot : String) (t : NumType) : List Node :=
  c.loadNodes slot t ++ c.loadNodes slot t ++
    [.plain (.const t (.int 1)) rfl, .plain (.numeric op.numeric t) rfl] ++ c.storeNodes slot t

mutual

def exprNodes : Expr → List Node
  | .literal value t _ => [.plain (.const t value) rfl]
  | .var slot t _ => c.loadNodes slot t
  | .binary op left right operandType _ _ =>
    if op = .and then
      exprNodes left ++ conditionNodes left.type ++
        [.cond (some .i32) (exprNodes right ++ truthNodes right.type)
          (some [.plain (.const .i32 (.int 0)) rfl])]
    else if op = .or then
      exprNodes left ++ conditionNodes left.type ++
        [.cond (some .i32) [.plain (.const .i32 (.int 1)) rfl]
          (some (exprNodes right ++ truthNodes right.type))]
    else
      exprNodes left ++ coerceNodes left.type operandType ++ exprNodes right ++
        coerceNodes right.type operandType ++ numericNodes op operandType
  | .unary op operand _ _ => exprNodes operand ++ unaryNodes op operand.type
  | .update op slot t _ => c.updateNodes op slot t
  | .assign slot value t _ =>
    exprNodes value ++ c.storeNodes slot value.type ++ c.loadNodes slot t
  | .convert operand source target _ _ => exprNodes operand ++ coerceNodes source target
  | .call callee arguments parameterTypes _ _ _ =>
    argumentNodes arguments parameterTypes ++ callNodes callee

def argumentNodes : List Expr → List NumType → List Node
  | argument :: arguments, parameter :: parameters =>
    exprNodes argument ++ coerceNodes argument.type parameter ++ argumentNodes arguments parameters
  | _, _ => []

end

/-- Leaves a loop unless its condition holds. -/
def testNodes (label : Nat) : Option Expr → List Node
  | none => []
  | some e =>
    c.exprNodes e ++ conditionNodes e.type ++
      [.plain (.eqz .i32) rfl, .plain (.brIf (.exit label)) rfl]

def declareNodes (slot : String) (t : NumType) : Option Expr → List Node
  | none => [.plain (.const t (.int 0)) rfl] ++ c.storeNodes slot t
  | some value => c.exprNodes value ++ c.storeNodes slot value.type

def returnNodes : Option Expr → List Node
  | none => [.plain .ret rfl]
  | some value =>
    c.exprNodes value ++ (c.result.map (coerceNodes value.type)).getD [] ++ [.plain .ret rfl]

mutual

def stmtNodes (inner next : Nat) : Stmt → List Node
  | .declare slot value t _ => c.declareNodes slot t value
  | .assign slot value _ => c.exprNodes value ++ c.storeNodes slot value.type
  | .branch condition yes no _ =>
    c.exprNodes condition ++ conditionNodes condition.type ++
      [.cond none (stmtNodes inner next yes) (elseNodes inner (next + yes.loopCount) no)]
  | .loop start condition body step _ =>
    let label := next + loopCount? start
    stmtNodes? inner next start ++
      [.block (.exit label)
        [.loop (.head label)
          (c.testNodes label condition ++ [.block (.next label) (stmtNodes label (label + 1) body)] ++
            stmtNodes? inner (label + 1 + body.loopCount) step ++ [.plain (.br (.head label)) rfl])]]
  | .breakLoop _ => [.plain (.br (.exit inner)) rfl]
  | .continueLoop _ => [.plain (.br (.next inner)) rfl]
  | .returnValue value _ => c.returnNodes value
  | .print value _ => c.exprNodes value ++ callNodes (Host.print value.type).name
  | .block body _ => stmtsNodes inner next body
  | .expression value => c.exprNodes value ++ [.plain .drop rfl]
  | .call callee arguments parameterTypes _ =>
    c.argumentNodes arguments parameterTypes ++ callNodes callee ++
      if (c.resultOf callee).isSome then [.plain .drop rfl] else []

def stmtNodes? (inner next : Nat) : Option Stmt → List Node
  | none => []
  | some s => stmtNodes inner next s

/-- The second branch; an empty block is left out. -/
def elseNodes (inner next : Nat) : Option Stmt → Option (List Node)
  | none => none
  | some s => if s.isEmptyBlock then none else some (stmtNodes inner next s)

def stmtsNodes (inner next : Nat) : List Stmt → List Node
  | [] => []
  | s :: ss => stmtNodes inner next s ++ stmtsNodes inner (next + s.loopCount) ss

end

end Context

/-- A function with a result does not run past its end. -/
def Function.endNodes (f : Function) : List Node :=
  if f.result.isSome && !f.body.getLast?.any Stmt.isReturn then [.plain .unreachable rfl] else []

/-- The code of a function, in its program. -/
def Function.nodes (f : Function) (p : Program) : List Node :=
  (f.context p).stmtsNodes 0 0 f.body ++ f.endNodes

end Typed
end Numlet
