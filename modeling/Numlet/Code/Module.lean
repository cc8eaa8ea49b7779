import Numlet.Code.Form
import Numlet.Code.Lower
import Numlet.Options

/-!
Lowering of functions and whole programs.
-/
namespace Numlet.Lowering

/-- The instructions of a function. Nothing but the used host functions is left from what was lowered
before. A function with a result does not run past its end. -/
def lowerBody (f : Typed.Function) : Lowering (List Instr) := do
  modify fun s => { s with
    output := #[], slots := {}, storage := f.storage, result := f.result, loops := []
    nextLabel := 0 }
  f.parameters.forM fun p => discard (addParameter p.name p.type)
  lowerStmts f.body
  if f.result.isSome && !f.body.getLast?.any Typed.Stmt.isReturn then emit .unreachable
  modifyGet fun s => (s.output.toList, { s with output := #[] })

def lowerFunction (f : Typed.Function) (exportName : Option String) : Lowering FunctionForm := do
  report (.lowering f.name)
  let body ← lowerBody f
  let locals := (← get).slots.locals
  report (.lowered f.name (f.parameters.length + locals.length) body.length)
  return ⟨f.name, exportName, f.parameters, f.result, locals.map fun l => (l.1, l.2.type), body⟩

def lowerFunctions (exported : Bool) : List Typed.Function → Lowering (List FunctionForm)
  | [] => return []
  | f :: fs => do
    let form ← lowerFunction f (if exported then some f.name else none)
    return form :: (← lowerFunctions exported fs)

/-- The host functions called so far, in the order of the table. -/
def imports (s : Emitter) : List Host := Host.all.filter (s.usedHosts.contains ·)

/-- The functions in order, then the entry function, which is always exported. -/
def lowerProgram (options : Options) : Lowering WatModule := do
  let program := (← get).program
  let functions ← lowerFunctions options.exportFunctions program.functions
  let entry ← lowerFunction program.entry (some options.entryName)
  return ⟨imports (← get), functions ++ [entry]⟩

end Numlet.Lowering

namespace Numlet

/-- The module of a checked program, and the state of the lowering at the end. -/
def Typed.Program.lower (p : Typed.Program) (options : Options) :
    EStateM.Result Diagnostic Emitter WatModule :=
  Lowering.lowerProgram options { program := p }

end Numlet
