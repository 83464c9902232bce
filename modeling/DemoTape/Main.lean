/-
# The program

Reads the file that the arguments name and writes what the command says.
-/
import DemoTape.CommandLine

namespace DemoTape
set_option autoImplicit false

def usage : String := "\n".intercalate [
  "usage: info FILE [--output json|pretty]",
  "       unspool FILE [--path QUERY] [--tick-freq N] [--output json|pretty]",
  "       bounds FILE [--class CLASS] [--output json|pretty]",
  "       roster FILE [--output json|pretty]",
  "       validate FILE [--verbose]"]

/-- The failure behind an error; the number of an error may come with its sign turned. -/
def FileFailure.ofError : IO.Error → FileFailure
  | .noFileOrDirectory _ code details => system code details
  | .permissionDenied _ code details => system code details
  | .inappropriateType _ code details => system code details
  | failure => ⟨toString failure, 0⟩
where
  system (code : UInt32) (details : String) : FileFailure :=
    ⟨details.capitalize, code.toInt32.toInt.natAbs⟩

def readFile (file : String) : IO (Except FileFailure Bytes) := do
  try
    let bytes ← IO.FS.readBinFile file
    pure (.ok bytes.toList)
  catch failure => pure (.error (.ofError failure))

def runProgram (arguments : List String) : IO UInt32 := do
  match Arguments.read? arguments with
  | none =>
    IO.eprintln usage
    pure 2
  | some invocation =>
    let outcome := CommandLine.run invocation (← readFile invocation.file)
    IO.print outcome.stdout
    IO.eprint outcome.stderr
    pure outcome.exitCode

end DemoTape

def main (arguments : List String) : IO UInt32 := DemoTape.runProgram arguments
