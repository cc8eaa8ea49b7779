import Numlet.Proofs.Code.Validation
import Numlet.Proofs.Meaning.Tree

/-!
The meaning of code, by its structure. A block, a loop or a branch starts with an empty stack, and what it
leaves comes on top of the stack before it. A jump goes to the innermost block or loop of its label and
takes nothing along. Code that is not well formed traps.
-/
namespace Numlet

/-- The top of the stack comes first. Locals are found under their names as they are written. -/
structure Config (F D W : Type) where
  stack : List (Value F D)
  locals : String → Option (Value F D)
  world : W

/-- How code goes on. -/
inductive Flow (F D W : Type)
  | next (c : Config F D W)
  | jump (label : Label) (locals : String → Option (Value F D)) (w : W)
  | ret (v : Option (Value F D)) (w : W)
  | trap (w : W)
  | outOfFuel

/-- A function that calls can be linked to. -/
structure Callee (F D W : Type) where
  arity : Nat
  hasResult : Bool
  run : Callable F D W

/-- What the code of a function is run with. -/
structure Machine (F D W : Type) where
  ops : Interpretation F D W
  callee : String → Option (Callee F D W)
  /-- Whether the function has a result. -/
  hasResult : Bool

variable {F D W : Type}

namespace Config

def push (c : Config F D W) (v : Value F D) : Config F D W := { c with stack := v :: c.stack }

/-- Puts the value of an operation on the stack `σ`. -/
def result (c : Config F D W) (σ : List (Value F D)) : Option (Value F D) → Flow F D W
  | some v => .next { c with stack := v :: σ }
  | none => .trap c.world

/-- The start of a block. -/
def inner (c : Config F D W) : Config F D W := { c with stack := [] }

/-- Sets a local that there is. -/
def set (c : Config F D W) (x : String) (v : Value F D) (σ : List (Value F D)) : Flow F D W :=
  match c.locals x with
  | some _ => .next ⟨σ, fun y => if y = x then some v else c.locals y, c.world⟩
  | none => .trap c.world

end Config

namespace Callee

/-- Takes the arguments from the stack, the last one first. -/
def call (f : Callee F D W) (c : Config F D W) : Flow F D W :=
  if c.stack.length < f.arity then .trap c.world
  else
    match f.run (c.stack.take f.arity).reverse c.world with
    | .ok (v, w) =>
      .next ⟨if f.hasResult then v :: c.stack.drop f.arity else c.stack.drop f.arity, c.locals, w⟩
    | .error w => .trap w

/-- A call with its arguments on the stack. -/
theorem call_reverse (f : Callee F D W) {vs : List (Value F D)} (h : vs.length = f.arity)
    (σ : List (Value F D)) (locals : String → Option (Value F D)) (w : W) :
    f.call ⟨vs.reverse ++ σ, locals, w⟩ =
      match f.run vs w with
      | .ok (v, w) => .next ⟨if f.hasResult then v :: σ else σ, locals, w⟩
      | .error w => .trap w := by
  have hlength : f.arity = vs.reverse.length := by simp [h]
  refine (if_neg (by simp [h])).trans ?_
  simp only [hlength, List.take_left, List.drop_left, List.reverse_reverse]

end Callee

namespace Flow

def bind (flow : Flow F D W) (k : Config F D W → Flow F D W) : Flow F D W :=
  match flow with
  | .next c => k c
  | .jump l locals w => .jump l locals w
  | .ret v w => .ret v w
  | .trap w => .trap w
  | .outOfFuel => .outOfFuel

/-- Puts what is left on the stack on top of `σ`. -/
def onto (σ : List (Value F D)) (flow : Flow F D W) : Flow F D W :=
  flow.bind fun c => .next { c with stack := c.stack ++ σ }

/-- Jumps to the label go on with `k`, from an empty stack. -/
def redirect (label : Label) (k : Config F D W → Flow F D W) (flow : Flow F D W) : Flow F D W :=
  match flow with
  | .jump l locals w => if l = label then k ⟨[], locals, w⟩ else .jump l locals w
  | .next c => .next c
  | .ret v w => .ret v w
  | .trap w => .trap w
  | .outOfFuel => .outOfFuel

/-- Jumps to the label go round again. -/
def repeated (body : Nat → Config F D W → Flow F D W) (label : Label) :
    Nat → Config F D W → Flow F D W
  | 0, _ => .outOfFuel
  | n + 1, c => (body n c).redirect label (repeated body label n)

theorem bind_assoc (flow : Flow F D W) (k k' : Config F D W → Flow F D W) :
    (flow.bind k).bind k' = flow.bind fun c => (k c).bind k' := by
  cases flow <;> rfl

theorem bind_next (flow : Flow F D W) : flow.bind .next = flow := by cases flow <;> rfl

end Flow

namespace Machine

variable (M : Machine F D W)

/-- One instruction that opens and closes nothing. -/
def step (i : Instr) (c : Config F D W) : Flow F D W :=
  match i, c.stack with
  | .const t v, _ => .next (c.push (M.ops.const t v))
  | .getLocal x, σ => c.result σ (c.locals (bareName x))
  | .setLocal x, v :: σ => c.set (bareName x) v σ
  | .numeric op t, b :: a :: σ => c.result σ (M.ops.numeric op t a b)
  | .eqz t, v :: σ => c.result σ (Value.eqz t v)
  | .convert k, v :: σ => c.result σ (M.ops.convert k.source k.target v)
  | .call f, _ =>
    match M.callee f with
    | some callee => callee.call c
    | none => .trap c.world
  | .br l, _ => .jump l c.locals c.world
  | .brIf l, .i32 b :: σ =>
    if b = 0 then .next { c with stack := σ } else .jump l c.locals c.world
  | .ret, σ =>
    if M.hasResult then
      match σ with
      | v :: _ => .ret (some v) c.world
      | [] => .trap c.world
    else .ret none c.world
  | .drop, _ :: σ => .next { c with stack := σ }
  | _, _ => .trap c.world

mutual

def exec : Node → Nat → Config F D W → Flow F D W
  | .plain i _ => fun _ => M.step i
  | .block label body => fun n c =>
    ((execAll body n c.inner).redirect label .next).onto c.stack
  | .loop label body => fun n c =>
    (Flow.repeated (execAll body) label n c.inner).onto c.stack
  | .cond _ yes no => fun n c =>
    match c.stack with
    | .i32 b :: σ =>
      (if b = 0 then execElse no n c.inner else execAll yes n c.inner).onto σ
    | _ => .trap c.world

def execAll : List Node → Nat → Config F D W → Flow F D W
  | [] => fun _ => .next
  | node :: nodes => fun n c => (exec node n c).bind (execAll nodes n)

/-- A missing second branch does nothing. -/
def execElse : Option (List Node) → Nat → Config F D W → Flow F D W
  | none => fun _ => .next
  | some nodes => execAll nodes

end

theorem execAll_cons (node : Node) (ns : List Node) (n : Nat) (c : Config F D W) :
    M.execAll (node :: ns) n c = (M.exec node n c).bind (M.execAll ns n) := by rw [execAll]

theorem execAll_append (ns ms : List Node) (n : Nat) (c : Config F D W) :
    M.execAll (ns ++ ms) n c = (M.execAll ns n c).bind (M.execAll ms n) := by
  induction ns generalizing c with
  | nil => rw [List.nil_append, execAll]; rfl
  | cons node ns ih =>
    rw [List.cons_append, execAll_cons, execAll_cons, Flow.bind_assoc]
    exact congrArg _ (funext ih)

theorem execAll_single (node : Node) (n : Nat) (c : Config F D W) :
    M.execAll [node] n c = M.exec node n c := by
  rw [execAll_cons, execAll]
  exact Flow.bind_next _

end Machine

section Frame

variable (X : String → Prop) [DecidablePred X]

/-- Only some of the locals. -/
def restrict (locals : String → Option (Value F D)) (x : String) : Option (Value F D) :=
  if X x then locals x else none

def Config.restrict (c : Config F D W) : Config F D W := { c with locals := Numlet.restrict X c.locals }

def Flow.restrict : Flow F D W → Flow F D W
  | .next c => .next (c.restrict X)
  | .jump l locals w => .jump l (Numlet.restrict X locals) w
  | .ret v w => .ret v w
  | .trap w => .trap w
  | .outOfFuel => .outOfFuel

/-- Code names only some of the locals. -/
def Node.Within (ns : List Node) : Prop :=
  ∀ i ∈ Node.flatten ns, ∀ x, i.local? = some x → X (bareName x)

variable {X}

theorem Config.result_restrict (c : Config F D W) (σ : List (Value F D)) (v : Option (Value F D)) :
    (c.restrict X).result σ v = (c.result σ v).restrict X := by
  cases v <;> rfl

theorem Config.set_restrict (c : Config F D W) {x : String} (hx : X x) (v : Value F D)
    (σ : List (Value F D)) : (c.restrict X).set x v σ = (c.set x v σ).restrict X := by
  have hsame : Numlet.restrict X c.locals x = c.locals x := if_pos hx
  simp only [Config.set, Config.restrict, hsame]
  cases c.locals x with
  | none => rfl
  | some u =>
    refine congrArg (fun locals => Flow.next ⟨σ, locals, c.world⟩) (funext fun y => ?_)
    by_cases hy : y = x
    · subst hy
      simp [Numlet.restrict, hx]
    · simp [Numlet.restrict, hy]

theorem Callee.call_restrict (f : Callee F D W) (c : Config F D W) :
    f.call (c.restrict X) = (f.call c).restrict X := by
  obtain ⟨σ, locals, w⟩ := c
  change f.call ⟨σ, Numlet.restrict X locals, w⟩ = _
  simp only [Callee.call]
  by_cases h : σ.length < f.arity
  · simp only [if_pos h]
    rfl
  · simp only [if_neg h]
    cases f.run (σ.take f.arity).reverse w <;> rfl

theorem Flow.bind_restrict (flow : Flow F D W) {k k' : Config F D W → Flow F D W}
    (h : ∀ c, k (c.restrict X) = (k' c).restrict X) :
    (flow.restrict X).bind k = (flow.bind k').restrict X := by
  cases flow with
  | next c => exact h c
  | jump | ret | trap | outOfFuel => rfl

theorem Flow.onto_restrict (flow : Flow F D W) (σ : List (Value F D)) :
    (flow.restrict X).onto σ = (flow.onto σ).restrict X := flow.bind_restrict fun _ => rfl

theorem Flow.redirect_restrict (flow : Flow F D W) (label : Label)
    {k k' : Config F D W → Flow F D W} (h : ∀ c, k (c.restrict X) = (k' c).restrict X) :
    (flow.restrict X).redirect label k = (flow.redirect label k').restrict X := by
  cases flow with
  | jump l locals w =>
    simp only [Flow.restrict, Flow.redirect]
    by_cases hl : l = label
    · rw [if_pos hl, if_pos hl]
      exact h ⟨[], locals, w⟩
    · rw [if_neg hl, if_neg hl]
  | next | ret | trap | outOfFuel => rfl

theorem Flow.repeated_restrict {body : Nat → Config F D W → Flow F D W}
    (h : ∀ n c, body n (c.restrict X) = (body n c).restrict X) (label : Label) (n : Nat)
    (c : Config F D W) :
    Flow.repeated body label n (c.restrict X) = (Flow.repeated body label n c).restrict X := by
  induction n generalizing c with
  | zero => rfl
  | succ n ih =>
    rw [Flow.repeated, Flow.repeated, h]
    exact Flow.redirect_restrict _ label ih

namespace Machine

variable (M : Machine F D W)

theorem step_restrict {i : Instr} (h : ∀ x, i.local? = some x → X (bareName x))
    (c : Config F D W) : M.step i (c.restrict X) = (M.step i c).restrict X := by
  obtain ⟨σ, locals, w⟩ := c
  cases i with
  | getLocal x =>
    have hx : restrict X locals (bareName x) = locals (bareName x) := if_pos (h x rfl)
    change Config.result _ σ (restrict X locals (bareName x)) = _
    rw [hx]
    exact Config.result_restrict ⟨σ, locals, w⟩ σ _
  | setLocal x =>
    cases σ with
    | nil => rfl
    | cons v σ => exact Config.set_restrict ⟨v :: σ, locals, w⟩ (h x rfl) v σ
  | call f =>
    change (match M.callee f with | some callee => callee.call _ | none => .trap w) = _
    simp only [step]
    cases M.callee f with
    | none => rfl
    | some callee => exact callee.call_restrict ⟨σ, locals, w⟩
  | numeric op t =>
    match σ with
    | [] | [_] => rfl
    | b :: a :: σ => exact Config.result_restrict ⟨b :: a :: σ, locals, w⟩ σ _
  | eqz | convert =>
    cases σ with
    | nil => rfl
    | cons v σ => exact Config.result_restrict ⟨v :: σ, locals, w⟩ σ _
  | brIf l =>
    match σ with
    | [] | .i64 _ :: _ | .f32 _ :: _ | .f64 _ :: _ => rfl
    | .i32 b :: σ =>
      simp only [step, Config.restrict]
      by_cases hb : b = 0
      · rw [if_pos hb, if_pos hb]
        rfl
      · rw [if_neg hb, if_neg hb]
        rfl
  | ret =>
    simp only [step, Config.restrict]
    cases M.hasResult <;> cases σ <;> rfl
  | drop => cases σ <;> rfl
  | const | block | loop | ifThen | ifValue | orElse | finish | br | unreachable | verbatim => rfl

mutual

theorem exec_restrict (node : Node) (h : Node.Within X [node]) (n : Nat) (c : Config F D W) :
    M.exec node n (c.restrict X) = (M.exec node n c).restrict X := by
  match node with
  | .plain i _ =>
    rw [exec]
    exact M.step_restrict (h i (by simp [Node.flat])) c
  | .block label body =>
    have hbody : Node.Within X body := fun i hi => h i (by simp [Node.flat, hi])
    have hinner : M.execAll body n (c.restrict X).inner = _ := execAll_restrict body hbody n c.inner
    have hnext : ∀ c : Config F D W, Flow.next (c.restrict X) = (Flow.next c).restrict X := fun _ => rfl
    rw [exec]
    refine Eq.trans ?_ (Flow.onto_restrict _ c.stack)
    change Flow.onto c.stack ((M.execAll body n (c.restrict X).inner).redirect label .next) = _
    rw [hinner, Flow.redirect_restrict _ label hnext]
  | .loop label body =>
    have hbody : Node.Within X body := fun i hi => h i (by simp [Node.flat, hi])
    rw [exec, ← Flow.onto_restrict,
      ← Flow.repeated_restrict (fun n c => execAll_restrict body hbody n c) label n c.inner]
    rfl
  | .cond r yes no =>
    have hyes : Node.Within X yes := fun i hi => h i (by simp [Node.flat, hi])
    have hno : ∀ ms, no = some ms → Node.Within X ms := by
      rintro ms rfl i hi
      exact h i (by simp [Node.flat, Node.flattenElse, hi])
    obtain ⟨σ, locals, w⟩ := c
    match σ with
    | [] | .i64 _ :: _ | .f32 _ :: _ | .f64 _ :: _ => rfl
    | .i32 b :: σ =>
      simp only [exec, Config.restrict, Config.inner]
      by_cases hb : b = 0
      · rw [if_pos hb, if_pos hb, ← Flow.onto_restrict, ← execElse_restrict no hno n ⟨[], locals, w⟩]
        rfl
      · rw [if_neg hb, if_neg hb, ← Flow.onto_restrict, ← execAll_restrict yes hyes n ⟨[], locals, w⟩]
        rfl

/-- Locals that code does not name make no difference to it. -/
theorem execAll_restrict (ns : List Node) (h : Node.Within X ns) (n : Nat) (c : Config F D W) :
    M.execAll ns n (c.restrict X) = (M.execAll ns n c).restrict X := by
  match ns with
  | [] => rfl
  | node :: ns =>
    have hnode : Node.Within X [node] := fun i hi => h i (by simpa using .inl (by simpa using hi))
    have hrest : Node.Within X ns := fun i hi => h i (by simp [hi])
    rw [execAll_cons, execAll_cons, exec_restrict node hnode n c]
    exact Flow.bind_restrict _ fun c => execAll_restrict ns hrest n c

theorem execElse_restrict (no : Option (List Node)) (h : ∀ ms, no = some ms → Node.Within X ms)
    (n : Nat) (c : Config F D W) :
    M.execElse no n (c.restrict X) = (M.execElse no n c).restrict X := by
  match no with
  | none => rfl
  | some ms =>
    rw [execElse]
    exact execAll_restrict ms (h ms rfl) n c

end

end Machine

end Frame

end Numlet
