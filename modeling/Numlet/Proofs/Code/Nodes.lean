import Numlet.Code.Instr

/-!
Code by its structure. The lines of a function are read back into nested blocks, loops and branches, and
reading undoes writing.
-/
namespace Numlet

/-- Whether an instruction is neither an opening nor an `else` nor an `end`. -/
@[reducible] def Instr.isPlain : Instr → Bool
  | .block _ | .loop _ | .ifThen | .ifValue _ | .orElse | .finish => false
  | _ => true

inductive Node
  | plain (i : Instr) (h : i.isPlain = true)
  | block (label : Label) (body : List Node)
  | loop (label : Label) (body : List Node)
  | cond (result : Option NumType) (yes : List Node) (no : Option (List Node))

namespace Node

/-- The opening of a branch. -/
def opening : Option NumType → Instr
  | none => .ifThen
  | some t => .ifValue t

mutual

/-- The lines of a node. -/
def flat : Node → List Instr
  | .plain i _ => [i]
  | .block label body => .block label :: (flatten body ++ [.finish])
  | .loop label body => .loop label :: (flatten body ++ [.finish])
  | .cond result yes no => opening result :: (flatten yes ++ flattenElse no ++ [.finish])

def flatten : List Node → List Instr
  | [] => []
  | n :: ns => n.flat ++ flatten ns

def flattenElse : Option (List Node) → List Instr
  | none => []
  | some ns => .orElse :: flatten ns

end

@[simp] theorem flatten_nil : flatten [] = [] := by rw [flatten]

@[simp] theorem flatten_cons (n : Node) (ns : List Node) :
    flatten (n :: ns) = n.flat ++ flatten ns := by rw [flatten]

@[simp] theorem flatten_append (ns ms : List Node) :
    flatten (ns ++ ms) = flatten ns ++ flatten ms := by
  induction ns with
  | nil => rfl
  | cons n ns ih => rw [List.cons_append, flatten_cons, ih, flatten_cons, List.append_assoc]

/-- An opening that waits for its `end`, with the nodes before it. -/
inductive Frame
  | block (label : Label) (before : List Node)
  | loop (label : Label) (before : List Node)
  | yes (result : Option NumType) (before : List Node)
  | no (result : Option NumType) (first before : List Node)

/-- The nodes up to the end of a frame. -/
def Frame.close (inside : List Node) : Frame → List Node
  | .block label before => before ++ [.block label inside]
  | .loop label before => before ++ [.loop label inside]
  | .yes result before => before ++ [.cond result inside none]
  | .no result first before => before ++ [.cond result first (some inside)]

/-- Reads lines, where `done` stands before them in the innermost of the open frames. -/
def nest (frames : List Frame) (done : List Node) : List Instr → Option (List Node)
  | [] => if frames.isEmpty then some done else none
  | .block label :: rest => nest (.block label done :: frames) [] rest
  | .loop label :: rest => nest (.loop label done :: frames) [] rest
  | .ifThen :: rest => nest (.yes none done :: frames) [] rest
  | .ifValue t :: rest => nest (.yes (some t) done :: frames) [] rest
  | .orElse :: rest =>
    match frames with
    | .yes result before :: frames => nest (.no result done before :: frames) [] rest
    | _ => none
  | .finish :: rest =>
    match frames with
    | frame :: frames => nest frames (frame.close done) rest
    | [] => none
  | i :: rest => if h : i.isPlain = true then nest frames (done ++ [.plain i h]) rest else none

/-- The structure of lines in which everything that is opened is closed. -/
def ofInstrs? (code : List Instr) : Option (List Node) := nest [] [] code

theorem nest_plain {i : Instr} (h : i.isPlain = true) (frames : List Frame) (done : List Node)
    (rest : List Instr) : nest frames done (i :: rest) = nest frames (done ++ [.plain i h]) rest := by
  cases i with
  | block | loop | ifThen | ifValue | orElse | finish => cases h
  | const | getLocal | setLocal | numeric | eqz | convert | call | br | brIf | ret | drop | unreachable
  | verbatim => rfl

theorem nest_opening (result : Option NumType) (frames : List Frame) (done : List Node)
    (rest : List Instr) :
    nest frames done (opening result :: rest) = nest (.yes result done :: frames) [] rest := by
  cases result <;> rfl

mutual

/-- What stands after a node is read as if the node had been read already. -/
theorem nest_flat (n : Node) (frames : List Frame) (done : List Node) (rest : List Instr) :
    nest frames done (n.flat ++ rest) = nest frames (done ++ [n]) rest := by
  match n with
  | .plain i h =>
    rw [flat]
    exact nest_plain h frames done rest
  | .block label body =>
    rw [flat, List.cons_append, List.append_assoc, nest, nest_flatten body]
    rfl
  | .loop label body =>
    rw [flat, List.cons_append, List.append_assoc, nest, nest_flatten body]
    rfl
  | .cond result yes no =>
    rw [flat, List.cons_append, nest_opening, List.append_assoc, List.append_assoc,
      nest_flatten yes]
    exact nest_flattenElse no result yes frames done rest

theorem nest_flatten (ns : List Node) (frames : List Frame) (done : List Node) (rest : List Instr) :
    nest frames done (flatten ns ++ rest) = nest frames (done ++ ns) rest := by
  match ns with
  | [] => simp
  | n :: ns => rw [flatten_cons, List.append_assoc, nest_flat n, nest_flatten ns, List.append_assoc]; rfl

theorem nest_flattenElse (no : Option (List Node)) (result : Option NumType) (yes : List Node)
    (frames : List Frame) (done : List Node) (rest : List Instr) :
    nest (.yes result done :: frames) yes (flattenElse no ++ ([.finish] ++ rest)) =
      nest frames (done ++ [.cond result yes no]) rest := by
  match no with
  | none => rfl
  | some ns =>
    rw [flattenElse, List.cons_append, nest, nest_flatten ns]
    rfl

end

/-- Reading undoes writing. -/
theorem ofInstrs?_flatten (ns : List Node) : ofInstrs? (flatten ns) = some ns := by
  have h := nest_flatten ns [] [] []
  rw [List.append_nil] at h
  exact h

end Node
end Numlet
