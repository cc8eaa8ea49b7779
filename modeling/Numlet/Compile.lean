import Numlet.Check.Program
import Numlet.Code.Module
import Numlet.Tree.ReadStmt

/-!
From source to module text.
-/
namespace Numlet

/-- The result of a phase without its final state. -/
def answer {σ α : Type} : EStateM.Result Diagnostic σ α → Except Diagnostic α
  | .ok a _ => .ok a
  | .error d _ => .error d

/-- Reads and checks a source. -/
def checkSource (source file : String) (options : Options) : Except Diagnostic Typed.Program := do
  let program ← Program.ofSource source file
  answer (program.check options)

/-- The text of the module of a source, or the first thing that is wrong with it. -/
def compileSource (source file : String) (options : Options) : Except Diagnostic String := do
  let typed ← checkSource source file options
  let m ← answer (typed.lower options)
  return m.text

/-- Checks and lowers a program and gives all that was reported up to the end or the failure. -/
def Program.compileLogged (p : Program) (options : Options) :
    Array Event × Except Diagnostic String :=
  match p.check options with
  | .error d s => (s.log, .error d)
  | .ok typed s =>
    match typed.lower options with
    | .error d s' => (s.log ++ s'.log, .error d)
    | .ok m s' => (s.log ++ s'.log, .ok m.text)

end Numlet
