import Numlet.Code.Host
import Numlet.Diagnostic
import Numlet.Literal
import Numlet.Tree

/-!
Instructions of the stack machine, one to a line. Structured control is written with its opening, its
`else` and its `end` as instructions of their own.
-/
namespace Numlet

/-- The conversions between number types. -/
inductive Conversion
  | i64OfI32 | i32OfI64 | f64OfF32 | f32OfF64 | f32OfI32 | f64OfI32 | f32OfI64 | f64OfI64
deriving DecidableEq, Repr

namespace Conversion

def all : List Conversion :=
  [i64OfI32, i32OfI64, f64OfF32, f32OfF64, f32OfI32, f64OfI32, f32OfI64, f64OfI64]

def source : Conversion → NumType
  | i64OfI32 | f32OfI32 | f64OfI32 => .i32
  | i32OfI64 | f32OfI64 | f64OfI64 => .i64
  | f64OfF32 => .f32
  | f32OfF64 => .f64

def target : Conversion → NumType
  | i32OfI64 => .i32
  | i64OfI32 => .i64
  | f32OfF64 | f32OfI32 | f32OfI64 => .f32
  | f64OfF32 | f64OfI32 | f64OfI64 => .f64

def text : Conversion → String
  | i64OfI32 => "i64.extend_i32_s"
  | i32OfI64 => "i32.wrap_i64"
  | f64OfF32 => "f64.promote_f32"
  | f32OfF64 => "f32.demote_f64"
  | f32OfI32 => "f32.convert_i32_s"
  | f64OfI32 => "f64.convert_i32_s"
  | f32OfI64 => "f32.convert_i64_s"
  | f64OfI64 => "f64.convert_i64_s"

/-- The conversion from one type to another, if there is one. -/
def between? (source target : NumType) : Option Conversion :=
  all.find? fun c => c.source = source ∧ c.target = target

/-- What turns `source` into `target`: nothing for equal types. A fraction does not become a whole
number. -/
def plan (source target : NumType) (position : Position) :
    Except Diagnostic (Option Conversion) :=
  if source = target then .ok none
  else match between? source target with
    | some c => .ok (some c)
    | none => .error ⟨.unsupportedConversion source target, position⟩

end Conversion

/-- Operations on two numbers of one type. -/
inductive NumericOp
  | add | sub | mul | div | rem | eq | ne | lt | le | gt | ge
deriving DecidableEq, Repr

namespace NumericOp

/-- Division and order tell signed whole numbers apart. -/
def text (op : NumericOp) (t : NumType) : String :=
  let signed (name : String) := if t.isFloat then name else name ++ "_s"
  t.name ++ "." ++ match op with
    | add => "add"
    | sub => "sub"
    | mul => "mul"
    | div => signed "div"
    | rem => signed "rem"
    | eq => "eq"
    | ne => "ne"
    | lt => signed "lt"
    | le => signed "le"
    | gt => signed "gt"
    | ge => signed "ge"

/-- The operation of an operator at a type. Logical operators have none, nor has the remainder of
fractions. -/
def ofBinary? (op : BinaryOp) (t : NumType) : Option NumericOp :=
  match op with
  | .add => some add
  | .subtract => some sub
  | .multiply => some mul
  | .divide => some div
  | .remainder => if t.isFloat then none else some rem
  | .equals => some eq
  | .notEquals => some ne
  | .less => some lt
  | .lessEquals => some le
  | .greater => some gt
  | .greaterEquals => some ge
  | .and | .or => none

end NumericOp

/-- The three targets of jumps in a loop: past it, back to its head, and to the end of its body. -/
inductive Label
  | exit (loop : Nat) | head (loop : Nat) | next (loop : Nat)
deriving DecidableEq, Repr

def Label.text : Label → String
  | exit n => "$break_" ++ toString n
  | head n => "$loop_" ++ toString n
  | next n => "$continue_" ++ toString n

inductive Instr
  | const (type : NumType) (value : Literal)
  | getLocal (name : String)
  | setLocal (name : String)
  | numeric (op : NumericOp) (type : NumType)
  | eqz (type : NumType)
  | convert (conversion : Conversion)
  | call (target : String)
  | block (label : Label)
  | loop (label : Label)
  | ifThen
  | ifValue (type : NumType)
  | orElse
  | finish
  | br (label : Label)
  | brIf (label : Label)
  | ret
  | drop
  | unreachable
  /-- A line that is written as it is. -/
  | verbatim (line : String)
deriving DecidableEq, Repr

namespace Instr

def text : Instr → String
  | const t v => t.name ++ ".const " ++ v.text t
  | getLocal n => "local.get " ++ signed n
  | setLocal n => "local.set " ++ signed n
  | numeric op t => op.text t
  | eqz t => t.name ++ ".eqz"
  | convert c => c.text
  | call f => "call " ++ signed f
  | block l => "block " ++ l.text
  | loop l => "loop " ++ l.text
  | ifThen => "if"
  | ifValue t => "if (result " ++ t.name ++ ")"
  | orElse => "else"
  | finish => "end"
  | br l => "br " ++ l.text
  | brIf l => "br_if " ++ l.text
  | ret => "return"
  | drop => "drop"
  | unreachable => "unreachable"
  | verbatim line => line

/-- Whether the instructions after it stand one level deeper. -/
def opens : Instr → Bool
  | block _ | loop _ | ifThen | ifValue _ | orElse => true
  | _ => false

/-- Whether it ends a level. -/
def closes : Instr → Bool
  | orElse | finish => true
  | _ => false

/-- Lines with two spaces for each level, from the given one on. -/
def indented (depth : Nat) : List Instr → List String
  | [] => []
  | i :: is =>
    let depth := if i.closes then depth - 1 else depth
    (String.ofList (List.replicate (2 * depth) ' ') ++ i.text) ::
      indented (if i.opens then depth + 1 else depth) is

/-- The whole number `n` as a constant. -/
def whole (t : NumType) (n : Int) : Instr := const t (.int n)

end Instr
end Numlet
