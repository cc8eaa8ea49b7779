import Numlet.Code.Form
import Numlet.Proofs.Code.Nodes

/-!
When code is well typed. Code takes the types on the operand stack, the top first, to other types. After a
jump, a return or `unreachable` the stack can be anything. A block, a loop or a branch has a stack of its
own, which is empty at its start.
-/
namespace Numlet

/-- Whether a constant can stand at a type: whole numbers have a range. -/
def Literal.FitsIn : Literal → NumType → Prop
  | .int n, .i32 => -2147483648 ≤ n ∧ n ≤ 2147483647
  | .int n, .i64 => -9223372036854775808 ≤ n ∧ n ≤ 9223372036854775807
  | .int _, .f32 | .int _, .f64 | .fraction _, .f32 | .fraction _, .f64 => True
  | .fraction _, .i32 | .fraction _, .i64 => False

/-- A comparison gives an `i32`. -/
def NumericOp.resultType : NumericOp → NumType → NumType
  | .add, t | .sub, t | .mul, t | .div, t | .rem, t => t
  | .eq, _ | .ne, _ | .lt, _ | .le, _ | .gt, _ | .ge, _ => .i32

/-- What the code of a function can refer to. -/
structure CodeContext where
  localType : String → Option NumType
  signature : String → Option (List NumType × Option NumType)
  result : Option NumType

namespace CodeContext

/-- `k.Plain labels i s s'`: inside the given labels, `i` takes the stack `s` to `s'`. -/
inductive Plain (k : CodeContext) (labels : List Label) :
    Instr → List NumType → List NumType → Prop
  | const {t v s} (h : v.FitsIn t) : Plain k labels (.const t v) s (t :: s)
  | getLocal {x t s} (h : k.localType x = some t) : Plain k labels (.getLocal x) s (t :: s)
  | setLocal {x t s} (h : k.localType x = some t) : Plain k labels (.setLocal x) (t :: s) s
  | numeric {op t s} (h : op = .rem → t.isInteger = true) :
      Plain k labels (.numeric op t) (t :: t :: s) (op.resultType t :: s)
  | eqz {t s} (h : t.isInteger = true) : Plain k labels (.eqz t) (t :: s) (.i32 :: s)
  | convert {c s} : Plain k labels (.convert c) (c.source :: s) (c.target :: s)
  | call {f ts r s} (h : k.signature f = some (ts, r)) :
      Plain k labels (.call f) (ts.reverse ++ s) (r.toList ++ s)
  | br {l s s'} (h : l ∈ labels) : Plain k labels (.br l) s s'
  | brIf {l s} (h : l ∈ labels) : Plain k labels (.brIf l) (.i32 :: s) s
  | ret {s s'} : Plain k labels .ret (k.result.toList ++ s) s'
  | drop {t s} : Plain k labels .drop (t :: s) s
  | unreachable {s s'} : Plain k labels .unreachable s s'

/-- `k.Validates labels ns s s'`: inside the given labels, `ns` takes the stack `s` to `s'`. -/
inductive Validates (k : CodeContext) :
    List Label → List Node → List NumType → List NumType → Prop
  | nil {labels s} : Validates k labels [] s s
  | plain {labels i hi ns s s₁ s₂} (h : k.Plain labels i s s₁) (hs : Validates k labels ns s₁ s₂) :
      Validates k labels (.plain i hi :: ns) s s₂
  | block {labels l body ns s s₁} (h : Validates k (l :: labels) body [] [])
      (hs : Validates k labels ns s s₁) : Validates k labels (.block l body :: ns) s s₁
  | loop {labels l body ns s s₁} (h : Validates k (l :: labels) body [] [])
      (hs : Validates k labels ns s s₁) : Validates k labels (.loop l body :: ns) s s₁
  | cond {labels r yes no ns s s₁} (hy : Validates k labels yes [] r.toList)
      (hn : Validates k labels no [] r.toList) (hs : Validates k labels ns (r.toList ++ s) s₁) :
      Validates k labels (.cond r yes (some no) :: ns) (.i32 :: s) s₁
  | condYes {labels yes ns s s₁} (hy : Validates k labels yes [] [])
      (hs : Validates k labels ns s s₁) :
      Validates k labels (.cond none yes none :: ns) (.i32 :: s) s₁

namespace Validates

variable {k : CodeContext} {labels : List Label} {ns ms : List Node} {s s₁ s₂ : List NumType}

theorem append (h₁ : k.Validates labels ns s s₁) (h₂ : k.Validates labels ms s₁ s₂) :
    k.Validates labels (ns ++ ms) s s₂ := by
  induction h₁ with
  | nil => exact h₂
  | plain h _ ih => exact .plain h (ih h₂)
  | block h _ _ ih => exact .block h (ih h₂)
  | loop h _ _ ih => exact .loop h (ih h₂)
  | cond hy hn _ _ _ ih => exact .cond hy hn (ih h₂)
  | condYes hy _ _ ih => exact .condYes hy (ih h₂)

theorem of_append (h : k.Validates labels (ns ++ ms) s s₂) :
    ∃ s₁, k.Validates labels ns s s₁ ∧ k.Validates labels ms s₁ s₂ := by
  induction ns generalizing s with
  | nil => exact ⟨s, .nil, h⟩
  | cons n ns ih =>
    cases h with
    | plain h hs =>
      obtain ⟨s₁, hn, hm⟩ := ih hs
      exact ⟨s₁, .plain h hn, hm⟩
    | block h hs =>
      obtain ⟨s₁, hn, hm⟩ := ih hs
      exact ⟨s₁, .block h hn, hm⟩
    | loop h hs =>
      obtain ⟨s₁, hn, hm⟩ := ih hs
      exact ⟨s₁, .loop h hn, hm⟩
    | cond hy hno hs =>
      obtain ⟨s₁, hn, hm⟩ := ih hs
      exact ⟨s₁, .cond hy hno hn, hm⟩
    | condYes hy hs =>
      obtain ⟨s₁, hn, hm⟩ := ih hs
      exact ⟨s₁, .condYes hy hn, hm⟩

theorem single {i : Instr} {hi : i.isPlain = true} (h : k.Plain labels i s s₁) :
    k.Validates labels [.plain i hi] s s₁ := .plain h .nil

theorem of_single {i : Instr} {hi : i.isPlain = true}
    (h : k.Validates labels [.plain i hi] s s₁) : k.Plain labels i s s₁ := by
  cases h with
  | plain h hs =>
    cases hs
    exact h

end Validates

end CodeContext

/-- The local that an instruction names. -/
def Instr.local? : Instr → Option String
  | .getLocal x | .setLocal x => some x
  | _ => none

theorem Instr.local?_opening (r : Option NumType) : (Node.opening r).local? = none := by
  cases r <;> rfl

namespace CodeContext

variable {k : CodeContext} {labels : List Label}

/-- Code names only locals that there are. -/
theorem Validates.local_known {ns : List Node} {s s' : List NumType}
    (h : k.Validates labels ns s s') :
    ∀ i ∈ Node.flatten ns, ∀ x, i.local? = some x → (k.localType x).isSome = true := by
  induction h with
  | nil => exact fun i hi => (nomatch hi)
  | plain h _ ih =>
    simp only [Node.flatten_cons, Node.flat, List.forall_mem_append, List.forall_mem_singleton]
    refine ⟨fun x hx => ?_, ih⟩
    cases h with
    | getLocal h | setLocal h =>
      cases hx
      rw [h]
      rfl
    | const | numeric | eqz | convert | call | br | brIf | ret | drop | unreachable => cases hx
  | block _ _ ihb ih | loop _ _ ihb ih =>
    simp only [Node.flatten_cons, Node.flat, List.forall_mem_append, List.forall_mem_cons]
    exact ⟨⟨fun x hx => (nomatch hx), ihb, fun x hx => (nomatch hx), by simp⟩, ih⟩
  | cond _ _ _ ihy ihn ih =>
    simp only [Node.flatten_cons, Node.flat, Node.flattenElse, List.forall_mem_append,
      List.forall_mem_cons, Instr.local?_opening]
    exact ⟨⟨fun x hx => (nomatch hx), ⟨ihy, fun x hx => (nomatch hx), ihn⟩, fun x hx => (nomatch hx),
      by simp⟩, ih⟩
  | condYes _ _ ihy ih =>
    simp only [Node.flatten_cons, Node.flat, Node.flattenElse, List.forall_mem_append,
      List.forall_mem_cons, Instr.local?_opening]
    exact ⟨⟨fun x hx => (nomatch hx), ⟨ihy, by simp⟩, fun x hx => (nomatch hx), by simp⟩, ih⟩

/-- Only the locals that code names matter to it. -/
theorem Plain.of_locals {f : String → Option NumType} {i : Instr} {s s' : List NumType}
    (h : { k with localType := f }.Plain labels i s s')
    (hf : ∀ x t, i.local? = some x → f x = some t → k.localType x = some t) :
    k.Plain labels i s s' := by
  cases h with
  | const h => exact .const h
  | getLocal h => exact .getLocal (hf _ _ rfl h)
  | setLocal h => exact .setLocal (hf _ _ rfl h)
  | numeric h => exact .numeric h
  | eqz h => exact .eqz h
  | convert => exact .convert
  | call h => exact .call h
  | br h => exact .br h
  | brIf h => exact .brIf h
  | ret => exact .ret
  | drop => exact .drop
  | unreachable => exact .unreachable

theorem Validates.of_locals {f : String → Option NumType} {ns : List Node} {s s' : List NumType}
    (h : { k with localType := f }.Validates labels ns s s')
    (hf : ∀ i ∈ Node.flatten ns, ∀ x t, i.local? = some x → f x = some t → k.localType x = some t) :
    k.Validates labels ns s s' := by
  induction h with
  | nil => exact .nil
  | plain h _ ih =>
    simp only [Node.flatten_cons, Node.flat, List.forall_mem_append, List.forall_mem_singleton] at hf
    exact .plain (h.of_locals hf.1) (ih hf.2)
  | block _ _ ihb ih =>
    simp only [Node.flatten_cons, Node.flat, List.forall_mem_append, List.forall_mem_cons] at hf
    exact .block (ihb hf.1.2.1) (ih hf.2)
  | loop _ _ ihb ih =>
    simp only [Node.flatten_cons, Node.flat, List.forall_mem_append, List.forall_mem_cons] at hf
    exact .loop (ihb hf.1.2.1) (ih hf.2)
  | cond _ _ _ ihy ihn ih =>
    simp only [Node.flatten_cons, Node.flat, Node.flattenElse, List.forall_mem_append,
      List.forall_mem_cons] at hf
    exact .cond (ihy hf.1.2.1.1) (ihn hf.1.2.1.2.2) (ih hf.2)
  | condYes _ _ ihy ih =>
    simp only [Node.flatten_cons, Node.flat, Node.flattenElse, List.forall_mem_append,
      List.forall_mem_cons] at hf
    exact .condYes (ihy hf.1.2.1.1) (ih hf.2)

end CodeContext

namespace FunctionForm

/-- The parameters and the other locals of a function. -/
def declared (f : FunctionForm) : List (String × NumType) :=
  f.parameters.map (fun p => (p.name, p.type)) ++ f.locals

/-- The type of a local that is declared exactly once, under the name as it is written. -/
def localType (f : FunctionForm) (x : String) : Option NumType :=
  match f.declared.filter fun l => signed l.1 = signed x with
  | [l] => some l.2
  | _ => none

end FunctionForm

/-- The declared signature of the function that a call names. -/
def WatModule.signature? (m : WatModule) (target : String) :
    Option (List NumType × Option NumType) :=
  ((m.imports.map fun h => (h.target, h.parameters, h.result)) ++
    m.functions.map fun f => (f.name, f.parameters.map (·.type), f.result)).find?
      (fun d => signed d.1 = signed target) |>.map (·.2)

namespace FunctionForm

def context (f : FunctionForm) (m : WatModule) : CodeContext :=
  ⟨f.localType, m.signature?, f.result⟩

/-- Everything that is opened is closed, and the code is well typed. Without a result it ends with an empty
stack. With a result it never gets to its end, where it could leave any stack at all. -/
def Valid (f : FunctionForm) (m : WatModule) : Prop :=
  ∃ ns, Node.ofInstrs? f.body = some ns ∧
    match f.result with
    | none => (f.context m).Validates [] ns [] []
    | some _ => ∀ s, (f.context m).Validates [] ns [] s

end FunctionForm

end Numlet
