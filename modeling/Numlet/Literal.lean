import Numlet.NumType
import Numlet.Binary64.Shortest

/-!
Literal values, apart from the type that the context gives them.
-/
namespace Numlet

inductive Literal
  | int (value : Int)
  | fraction (value : Binary64)
deriving DecidableEq, Repr, Inhabited

namespace Literal

/-- The type of a literal where `hint` is wanted: a small whole number becomes `i64` on request and a
fraction `f64`. -/
def typeFor (value : Literal) (hint : Option NumType) : NumType :=
  match value with
  | .int n =>
    if NumType.forInteger n = .i32 ∧ hint = some .i64 then .i64 else NumType.forInteger n
  | .fraction _ => NumType.forFraction hint

/-- The text of a constant of type `t`. -/
def text (value : Literal) (t : NumType) : String :=
  match value, t.isFloat with
  | .int n, false => toString n
  | .int n, true => (Binary64.ofInt n).text
  | .fraction x, true => x.text
  | .fraction x, false => toString x.truncate

end Literal
end Numlet
