import Numlet.Compile
import Numlet.Diagnostic.Render

/-!
The command line: one input file, and the module to the standard output or a file. A run is described
over any surroundings that can read and write files, print, and tell the time.
-/
namespace Numlet.CommandLine

structure Arguments where
  input : String
  output : Option String
  options : Options
deriving DecidableEq, Repr

def usage : String := "usage: stackc <input> [-o <output.wat>] [--strict] [--entry <name>]"

/-- Reads the arguments from the left, given what the earlier ones have set. -/
def parseFrom (input output : Option String) (options : Options) :
    List String → Except String Arguments
  | [] =>
    match input with
    | none => .error "no input file given"
    | some input => .ok ⟨input, output, options⟩
  | "-o" :: [] => .error "`-o` needs a path"
  | "-o" :: path :: rest => parseFrom input (some path) options rest
  | "--strict" :: rest => parseFrom input output { options with autoDeclare := false } rest
  | "--entry" :: [] => .error "`--entry` needs a name"
  | "--entry" :: name :: rest =>
    if Text.isWord name then parseFrom input output { options with entryName := name } rest
    else .error ("`--entry` name `" ++ name ++ "` is not an identifier")
  | arg :: rest =>
    if arg.toList.head? = some '-' then .error ("unknown flag `" ++ arg ++ "`")
    else match input with
      | none => parseFrom (some arg) output options rest
      | some _ => .error ("unexpected argument `" ++ arg ++ "`")

def Arguments.parse (args : List String) : Except String Arguments := parseFrom none none {} args

/-- The last part of a path, which names the file in diagnostics; the whole path if it has none. -/
def fileName (path : String) : String :=
  match ((path.splitOn "/").filter fun part => part ≠ "" ∧ part ≠ ".").getLast? with
  | none => path
  | some part => if part = ".." then path else part

/-- A whole number with `places` digits after a point, without zeros at the end. -/
def scaledText (places n : Nat) : String :=
  let digits := Nat.toDigits 10 (n % Nat.pow 10 places)
  let padded := List.replicate (places - digits.length) '0' ++ digits
  let fraction := (padded.reverse.dropWhile (· == '0')).reverse
  toString (n / Nat.pow 10 places) ++ if fraction.isEmpty then "" else "." ++ String.ofList fraction

/-- A count of nanoseconds in the largest unit that is not above it. -/
def durationText (nanoseconds : Nat) : String :=
  if 1000000000 ≤ nanoseconds then scaledText 9 nanoseconds ++ "s"
  else if 1000000 ≤ nanoseconds then scaledText 6 nanoseconds ++ "ms"
  else if 1000 ≤ nanoseconds then scaledText 3 nanoseconds ++ "µs"
  else scaledText 0 nanoseconds ++ "ns"

/-- What a run needs. Reading and writing fail with a reason; the time is in nanoseconds. -/
structure Surroundings (m : Type → Type) where
  read : String → ExceptT String m String
  write : String → String → ExceptT String m Unit
  printOut : String → m Unit
  printErr : String → m Unit
  now : m Nat

variable {m : Type → Type} [Monad m]

def Surroundings.reportTime (w : Surroundings m) (title : String) (since : Nat) : m Unit := do
  let elapsed := (← w.now) - since
  w.printErr (title ++ durationText elapsed ++ "\n")

/-- Ends the run with a text unless a phase gave a result; then its time is told. -/
def Surroundings.phase {α : Type} (w : Surroundings m) (title : String) (since : Nat)
    (explain : Diagnostic → String) (result : Except Diagnostic α) : ExceptT String m α :=
  match result with
  | .error d => throw (explain d)
  | .ok a => do
    w.reportTime title since
    return a

/-- Compiles the input; a failure gives the text to show for it. -/
def compileFile (w : Surroundings m) (a : Arguments) : ExceptT String m Unit := do
  let file := fileName a.input
  let source ← (w.read a.input).adapt fun reason =>
    "Failed to read " ++ a.input ++ ": " ++ reason ++ "\n"
  let explain (d : Diagnostic) := d.render source file
  let start ← w.now
  let tokens ← w.phase "Tokenized in " start explain (tokenize source file)
  let readStart ← w.now
  let program ← w.phase "Parsed in " readStart explain (answer (Program.ofTokens file tokens))
  let checkStart ← w.now
  let typed ← w.phase "Type checked in " checkStart explain (answer (program.check a.options))
  let lowerStart ← w.now
  let result ← w.phase "Compiled in " lowerStart explain (answer (typed.lower a.options))
  match a.output with
  | none => w.printOut result.text
  | some path =>
    (w.write path result.text).adapt fun reason =>
      "Failed to write " ++ path ++ ": " ++ reason ++ "\n"
    w.printErr ("Wrote " ++ path ++ "\n")
  w.reportTime "Total time: " start

/-- Runs the program on its arguments and gives the exit code. -/
def run (w : Surroundings m) (args : List String) : m UInt32 := do
  match Arguments.parse args with
  | .error message =>
    w.printErr (message ++ "\n" ++ usage ++ "\n")
    return 1
  | .ok a =>
    match ← (compileFile w a).run with
    | .error text =>
      w.printErr text
      return 1
    | .ok () => return 0

end Numlet.CommandLine
