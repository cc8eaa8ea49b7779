import Numlet.Typed

/-!
Paths through checked bodies. A path takes either way at every condition and goes round a loop any number
of times. It records what it does with the locals, in order, and the operands that it passes over.
-/
namespace Numlet.Typed

inductive Access
  | read (slot : String)
  | store (slot : String)
  /-- The left operand of `&&` or `||` has decided, so that the right one is not computed. -/
  | skip (operand : Expr)

/-- How a path leaves a statement. -/
inductive Exit
  | falls | breaks | continues | returns
  /-- The path ends after some rounds of a loop, as the beginning of a run without an end does. -/
  | stops
deriving DecidableEq

mutual

/-- The value of an assignment is that of its local, which it has just stored into; this is no read of its
own. -/
inductive ExprPath : Expr → List Access → Prop
  | literal {value type span} : ExprPath (.literal value type span) []
  | var {slot type span} : ExprPath (.var slot type span) [.read slot]
  | binary {op left right operandType type span as bs} (hl : ExprPath left as) (hr : ExprPath right bs) :
      ExprPath (.binary op left right operandType type span) (as ++ bs)
  | shortcut {op left right operandType type span as} (ho : op.isLogical = true) (hl : ExprPath left as) :
      ExprPath (.binary op left right operandType type span) (as ++ [.skip right])
  | unary {op operand type span as} (h : ExprPath operand as) : ExprPath (.unary op operand type span) as
  | update {op slot type span} : ExprPath (.update op slot type span) [.read slot, .store slot]
  | assign {slot value type span as} (h : ExprPath value as) :
      ExprPath (.assign slot value type span) (as ++ [.store slot])
  | convert {operand source target type span as} (h : ExprPath operand as) :
      ExprPath (.convert operand source target type span) as
  | call {callee arguments parameterTypes callSpan type span as} (h : ExprsPath arguments as) :
      ExprPath (.call callee arguments parameterTypes callSpan type span) as

inductive ExprsPath : List Expr → List Access → Prop
  | nil : ExprsPath [] []
  | cons {e es as bs} (h : ExprPath e as) (hs : ExprsPath es bs) : ExprsPath (e :: es) (as ++ bs)

end

inductive ExprPath? : Option Expr → List Access → Prop
  | missing : ExprPath? none []
  | present {e as} (h : ExprPath e as) : ExprPath? (some e) as

mutual

inductive StmtPath : Stmt → List Access → Exit → Prop
  | declare {slot value type span as} (h : ExprPath? value as) :
      StmtPath (.declare slot value type span) (as ++ [.store slot]) .falls
  | assign {slot value span as} (h : ExprPath value as) :
      StmtPath (.assign slot value span) (as ++ [.store slot]) .falls
  | yes {condition yes no span as bs x} (hc : ExprPath condition as) (h : StmtPath yes bs x) :
      StmtPath (.branch condition yes no span) (as ++ bs) x
  | no {condition yes no span as bs x} (hc : ExprPath condition as) (h : StmtPath? no bs x) :
      StmtPath (.branch condition yes no span) (as ++ bs) x
  | start {start condition body step span as x} (h : StmtPath? start as x) (hx : x ≠ .falls) :
      StmtPath (.loop start condition body step span) as x
  | loop {start condition body step span as bs x} (hs : StmtPath? start as .falls)
      (h : Rounds condition body step bs x) : StmtPath (.loop start condition body step span) (as ++ bs) x
  | breakLoop {span} : StmtPath (.breakLoop span) [] .breaks
  | continueLoop {span} : StmtPath (.continueLoop span) [] .continues
  | returnValue {value span as} (h : ExprPath? value as) : StmtPath (.returnValue value span) as .returns
  | print {value span as} (h : ExprPath value as) : StmtPath (.print value span) as .falls
  | block {body span as x} (h : StmtsPath body as x) : StmtPath (.block body span) as x
  | expression {value as} (h : ExprPath value as) : StmtPath (.expression value) as .falls
  | call {callee arguments parameterTypes span as} (h : ExprsPath arguments as) :
      StmtPath (.call callee arguments parameterTypes span) as .falls

inductive StmtPath? : Option Stmt → List Access → Exit → Prop
  | missing : StmtPath? none [] .falls
  | present {s as x} (h : StmtPath s as x) : StmtPath? (some s) as x

inductive StmtsPath : List Stmt → List Access → Exit → Prop
  | nil : StmtsPath [] [] .falls
  | leave {s ss as x} (h : StmtPath s as x) (hx : x ≠ .falls) : StmtsPath (s :: ss) as x
  | cons {s ss as bs x} (h : StmtPath s as .falls) (hs : StmtsPath ss bs x) :
      StmtsPath (s :: ss) (as ++ bs) x

/-- Rounds of a loop, from its test on. A loop without a condition is left only by its body. -/
inductive Rounds : Option Expr → Stmt → Option Stmt → List Access → Exit → Prop
  | stop {condition body step} : Rounds condition body step [] .stops
  | done {condition body step as} (hc : ExprPath condition as) :
      Rounds (some condition) body step as .falls
  | breaks {condition body step as bs} (hc : ExprPath? condition as) (hb : StmtPath body bs .breaks) :
      Rounds condition body step (as ++ bs) .falls
  | leave {condition body step as bs x} (hc : ExprPath? condition as) (hb : StmtPath body bs x)
      (hx : x = .returns ∨ x = .stops) : Rounds condition body step (as ++ bs) x
  | stepOut {condition body step as bs cs x y} (hc : ExprPath? condition as) (hb : StmtPath body bs x)
      (hx : x = .falls ∨ x = .continues) (hs : StmtPath? step cs y) (hy : y ≠ .falls) :
      Rounds condition body step (as ++ bs ++ cs) y
  | round {condition body step as bs cs ds x y} (hc : ExprPath? condition as) (hb : StmtPath body bs x)
      (hx : x = .falls ∨ x = .continues) (hs : StmtPath? step cs .falls)
      (h : Rounds condition body step ds y) : Rounds condition body step (as ++ bs ++ cs ++ ds) y

end

/-- A path through the body of a function. -/
def Function.Path (f : Function) (path : List Access) : Prop := ∃ x, StmtsPath f.body path x

end Numlet.Typed
