/-!
What a compilation can be told.
-/
namespace Numlet

structure Options where
  /-- An assignment to an undeclared name declares it. -/
  autoDeclare : Bool := true
  /-- The name of the function that holds the top-level statements. -/
  entryName : String := "_start"
  /-- Functions are exported under their names. -/
  exportFunctions : Bool := true
deriving DecidableEq, Repr, Inhabited

end Numlet
