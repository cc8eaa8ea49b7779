import Numlet.Check.Sites
import Numlet.Check.Stmt
import Numlet.Text.Word

/-!
Checking functions and whole programs. A body is checked again with the storage of the last pass until
the storage no longer changes, so that in the end every read has the type of its slot.
-/
namespace Numlet.Checking

/-- The names of a function's parameters differ. -/
def checkParameters (function : String) (earlier : List String) :
    List Parameter → Checking Unit
  | [] => return
  | p :: ps => do
    if earlier.contains p.name then
      throw (.malformed
        ("parameter `" ++ p.name ++ "` of `" ++ function ++ "` is declared twice") p.span)
    checkParameters function (p.name :: earlier) ps

/-- Adds a function to the signatures, so that bodies can call it before it is checked. -/
def declareFunction (f : Function) : Checking Unit := do
  let s ← get
  if s.signatures.contains f.name || f.name = s.options.entryName ||
      Host.all.any (fun h => bareName h.target == f.name) then
    throw ⟨.functionAlreadyDeclared f.name, f.span.start⟩
  checkParameters f.name [] f.parameters
  setSignature f.name ⟨f.parameters.map Parameter.type, f.result, f.result.isSome, false⟩

def declareFunctions (functions : List Function) : Checking Unit :=
  functions.forM declareFunction

def declareParameters (parameters : List Typed.Parameter) : Checking Unit :=
  parameters.forM fun p => discard (declareLocal p.name p.type true)

/-- One pass over a body, in a new scope. -/
def pass (scope : Scope) (readTypes : Table NumType) (parameters : List Typed.Parameter)
    (body : List Stmt) : Checking (List Typed.Stmt) := do
  modify fun s => { s with
    storage := .empty, readTypes := readTypes, declarations := .empty
    bareReturn := false, valuedReturn := false }
  within (fun _ => scope) do
    declareParameters parameters
    checkStmts body

/-- Passes over a body until the storage agrees with that of the pass before. -/
def settle (scope : Scope) (parameters : List Typed.Parameter) (body : List Stmt) :
    Nat → Nat → Table NumType → Checking (List Typed.Stmt)
  | 0, _, _ => throw (.malformed "storage does not settle" ⟨.unknown, .unknown⟩)
  | fuel + 1, number, readTypes => do
    let typed ← pass scope readTypes parameters body
    let storage := (← get).storage
    if storage.agrees readTypes then
      report (.storageSettled number)
      return typed
    else settle scope parameters body fuel (number + 1) storage

/-- Each pass but the first and the last widens a slot, and a slot can be widened three times. -/
def passBound (parameters : List Typed.Parameter) (body : List Stmt) : Nat :=
  3 * (parameters.length + sitesOfStmts body) + 2

def checkBody (scope : Scope) (parameters : List Typed.Parameter) (body : List Stmt) :
    Checking (List Typed.Stmt) :=
  settle scope parameters body (passBound parameters body) 1 .empty

/-- Checks a function that has been declared. -/
def checkFunction (f : Function) : Checking Typed.Function := do
  report (.checkingFunction f.name)
  let parameters := f.parameters.map fun p => (⟨p.name, p.type⟩ : Typed.Parameter)
  let body ← checkBody (.forFunction f.name) parameters f.body
  let valuedReturn := (← get).valuedReturn
  let signature ← signatureOf f.name f.span
  setSignature f.name { signature with checked := true }
  if let (none, some result, false) := (f.result, signature.result, valuedReturn) then
    throw (.mismatch result.name ("no value returned from `" ++ f.name ++ "`") f.span)
  return ⟨f.name, parameters, signature.result, body, f.bodySpan, (← get).storage, f.span⟩

/-- Checks the top-level statements as the body of the entry function. -/
def checkEntry (body : List Stmt) (span : Span) : Checking Typed.Function := do
  let name := (← get).options.entryName
  report (.checkingEntry name)
  let typed ← checkBody {} [] body
  return ⟨name, [], none, typed, span, (← get).storage, span⟩

def checkFunctions : List Function → Checking (List Typed.Function)
  | [] => return []
  | f :: fs => return (← checkFunction f) :: (← checkFunctions fs)

/-- Declares all functions, then checks them in order, then the top-level statements. -/
def checkProgram (p : Program) : Checking Typed.Program := do
  let name := (← get).options.entryName
  if !Text.isWord name then
    throw ⟨.malformedNode ("entry name `" ++ name ++ "` is not an identifier"), .unknown⟩
  declareFunctions p.functions
  let functions ← checkFunctions p.functions
  let entry ← checkEntry p.body p.bodySpan
  return ⟨functions, entry⟩

end Numlet.Checking

namespace Numlet

/-- The checked form of a program, and the state of the checker at the end. -/
def Program.check (p : Program) (options : Options) :
    EStateM.Result Diagnostic Checker Typed.Program :=
  Checking.checkProgram p (.new options)

end Numlet
