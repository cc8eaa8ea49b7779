import Numlet.Proofs.Meaning.Values
import Numlet.Proofs.Typed.Sound

/-!
The meaning of checked bodies, by their trees. An expression is computed from left to right; a trap ends
everything with the world as it is then. Statements end in different ways, and the fuel bounds how often
loops go round.
-/
namespace Numlet

/-- What the locals hold, and the world around. -/
structure Store (F D W : Type) where
  locals : String → Value F D
  world : W

def Store.set {F D W : Type} (s : Store F D W) (slot : String) (v : Value F D) : Store F D W :=
  { s with locals := fun x => if x = slot then v else s.locals x }

/-- Computations that trap with a world. -/
abbrev Computation (F D W : Type) := StateT (Store F D W) (Except W)

/-- How a statement ends. -/
inductive Outcome (F D W : Type)
  | normal (s : Store F D W)
  | broke (s : Store F D W)
  | continued (s : Store F D W)
  | returned (v : Option (Value F D)) (w : W)
  | trapped (w : W)
  | outOfFuel

/-- How a function ends. -/
inductive Ending (F D W : Type)
  | returned (v : Option (Value F D)) (w : W)
  | trapped (w : W)
  | outOfFuel
deriving DecidableEq

section Steps

variable {F D W α : Type}

def orTrap : Option α → Computation F D W α
  | some a => pure a
  | none => fun s => .error s.world

/-- What a local holds. -/
def fetch (slot : String) : Computation F D W (Value F D) := fun s => .ok (s.locals slot, s)

def assign (slot : String) (v : Value F D) : Computation F D W Unit := fun s => .ok ((), s.set slot v)

def Callable.invoke (f : Callable F D W) (arguments : List (Value F D)) :
    Computation F D W (Value F D) := fun s =>
  match f arguments s.world with
  | .ok (v, w) => .ok (v, { s with world := w })
  | .error w => .error w

/-- Goes on with the value of a computation. -/
def Computation.andThen (m : Computation F D W α) (k : α → Store F D W → Outcome F D W)
    (s : Store F D W) : Outcome F D W :=
  match m s with
  | .ok (a, s) => k a s
  | .error w => .trapped w

/-- The end of a statement that only computes. -/
def Computation.finish (m : Computation F D W α) : Store F D W → Outcome F D W :=
  m.andThen fun _ s => .normal s

/-- Goes on after a normal end. -/
def Outcome.andThen (o : Outcome F D W) (k : Store F D W → Outcome F D W) : Outcome F D W :=
  match o with
  | .normal s => k s
  | .broke _ | .continued _ | .returned _ _ | .trapped _ | .outOfFuel => o

/-- Goes round a loop. A step follows the body also where the body has been left early; a break needs no
step and no test. -/
def iterate (test : Computation F D W Bool) (body step : Nat → Store F D W → Outcome F D W) :
    Nat → Store F D W → Outcome F D W
  | 0, _ => .outOfFuel
  | n + 1, s => test.andThen (fun holds s =>
      if holds then
        match body n s with
        | .normal s | .continued s => (step n s).andThen (iterate test body step n)
        | .broke s => .normal s
        | .returned v w => .returned v w
        | .trapped w => .trapped w
        | .outOfFuel => .outOfFuel
      else .normal s) s

end Steps

namespace Typed.Context

variable {F D W : Type} (c : Context) (I : Interpretation F D W)

/-- The type of what a local holds. -/
def held (slot : String) : NumType := (c.storage slot).getD .i32

/-- A local as a value of the given type. -/
def read (slot : String) (t : NumType) : Computation F D W (Value F D) := do
  let v ← fetch slot
  orTrap (I.coerce (c.held slot) t v)

/-- Stores a value of the given type. -/
def write (slot : String) (t : NumType) (v : Value F D) : Computation F D W Unit := do
  let v ← orTrap (I.coerce t (c.held slot) v)
  assign slot v

/-- An update gives the value before it. -/
def update (op : UpdateOp) (slot : String) (t : NumType) : Computation F D W (Value F D) := do
  let old ← c.read I slot t
  let new ← orTrap (I.step op t old)
  c.write I slot t new
  return old

mutual

def eval : Expr → Computation F D W (Value F D)
  | .literal value t _ => pure (I.const t value)
  | .var slot t _ => c.read I slot t
  | .binary op left right operandType _ _ =>
    if op = .and then do
      let a ← eval left
      let holds ← orTrap (I.isTrue left.type a)
      if holds then do
        let b ← eval right
        let holds ← orTrap (I.isTrue right.type b)
        return .ofBool holds
      else return .ofBool false
    else if op = .or then do
      let a ← eval left
      let holds ← orTrap (I.isTrue left.type a)
      if holds then return .ofBool true
      else do
        let b ← eval right
        let holds ← orTrap (I.isTrue right.type b)
        return .ofBool holds
    else do
      let a ← eval left
      let a ← orTrap (I.coerce left.type operandType a)
      let b ← eval right
      let b ← orTrap (I.coerce right.type operandType b)
      orTrap (I.binary op operandType a b)
  | .unary op operand _ _ => do
    let v ← eval operand
    orTrap (I.unary op operand.type v)
  | .update op slot t _ => c.update I op slot t
  | .assign slot value t _ => do
    let v ← eval value
    c.write I slot value.type v
    c.read I slot t
  | .convert operand source target _ _ => do
    let v ← eval operand
    orTrap (I.coerce source target v)
  | .call callee arguments parameterTypes _ _ _ => do
    let vs ← evalArguments arguments parameterTypes
    (I.call callee).invoke vs

def evalArguments : List Expr → List NumType → Computation F D W (List (Value F D))
  | argument :: arguments, parameter :: parameters => do
    let v ← eval argument
    let v ← orTrap (I.coerce argument.type parameter v)
    let vs ← evalArguments arguments parameters
    return v :: vs
  | _, _ => pure []

end

/-- Whether a condition holds. -/
def holds (e : Expr) : Computation F D W Bool := do
  let v ← c.eval I e
  orTrap (I.isTrue e.type v)

/-- A loop without a condition has one that holds. -/
def holds? : Option Expr → Computation F D W Bool
  | none => pure true
  | some e => c.holds I e

/-- Stores the value of an expression. -/
def store (slot : String) (value : Expr) : Computation F D W Unit := do
  let v ← c.eval I value
  c.write I slot value.type v

/-- A value is returned as one of the function's result. -/
def returned (value : Expr) : Computation F D W (Value F D) := do
  let v ← c.eval I value
  orTrap (c.result.bind fun r => I.coerce value.type r v)

mutual

def run : Stmt → Nat → Store F D W → Outcome F D W
  | .declare slot none t _ => fun _ => (c.write I slot t (I.zero t)).finish
  | .declare slot (some value) _ _ => fun _ => (c.store I slot value).finish
  | .assign slot value _ => fun _ => (c.store I slot value).finish
  | .branch condition yes no _ => fun n =>
    (c.holds I condition).andThen fun holds s => if holds then run yes n s else run? no n s
  | .loop start condition body step _ => fun n s =>
    (run? start n s).andThen (iterate (c.holds? I condition) (run body) (run? step) n)
  | .breakLoop _ => fun _ s => .broke s
  | .continueLoop _ => fun _ s => .continued s
  | .returnValue none _ => fun _ s => .returned none s.world
  | .returnValue (some value) _ => fun _ =>
    (c.returned I value).andThen fun v s => .returned (some v) s.world
  | .print value _ => fun _ =>
    (c.eval I value >>= fun v => (I.host (.print value.type)).invoke [v]).finish
  | .block body _ => runAll body
  | .expression value => fun _ => (c.eval I value).finish
  | .call callee arguments parameterTypes _ => fun _ =>
    (c.evalArguments I arguments parameterTypes >>= (I.call callee).invoke).finish

def run? : Option Stmt → Nat → Store F D W → Outcome F D W
  | none => fun _ s => .normal s
  | some stmt => run stmt

def runAll : List Stmt → Nat → Store F D W → Outcome F D W
  | [] => fun _ s => .normal s
  | stmt :: stmts => fun n s => (run stmt n s).andThen (runAll stmts n)

end

end Typed.Context

namespace Typed.Function

variable {F D W : Type} (f : Function) (p : Program) (I : Interpretation F D W)

/-- Parameters hold the arguments and all other locals zero. -/
def start (arguments : List (Value F D)) (slot : String) : Value F D :=
  (((f.parameters.map (·.name)).zip arguments).lookup slot).getD
    (I.zero ((f.storage.find? slot).getD .i32))

/-- A call of a function. One with a result has to return. -/
def run (n : Nat) (arguments : List (Value F D)) (w : W) : Ending F D W :=
  match (f.context p).runAll I f.body n ⟨f.start I arguments, w⟩ with
  | .normal s => if f.result.isSome then .trapped s.world else .returned none s.world
  | .returned v w => .returned v w
  | .trapped w => .trapped w
  | .outOfFuel => .outOfFuel
  | .broke s | .continued s => .trapped s.world

end Typed.Function

end Numlet
