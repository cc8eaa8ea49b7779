import Numlet.CommandLine

/-!
The program: a run of the command line on the system's files and standard streams.
-/
namespace Numlet.CommandLine

/-- The reason that a file could not be used. -/
def reasonOf (e : IO.Error) : String :=
  match e with
  | .noFileOrDirectory .. => "No such file or directory (os error 2)"
  | e => toString e

def readText (path : String) : ExceptT String IO String := ExceptT.mk do
  try
    let bytes ← IO.FS.readBinFile path
    match String.fromUTF8? bytes with
    | some text => return .ok text
    | none => return .error "stream did not contain valid UTF-8"
  catch e => return .error (reasonOf e)

def writeText (path text : String) : ExceptT String IO Unit := ExceptT.mk do
  try
    IO.FS.writeFile path text
    return .ok ()
  catch e => return .error (reasonOf e)

def console : Surroundings IO where
  read := readText
  write := writeText
  printOut := IO.print
  printErr := IO.eprint
  now := IO.monoNanosNow

end Numlet.CommandLine

def main (args : List String) : IO UInt32 := Numlet.CommandLine.run Numlet.CommandLine.console args
