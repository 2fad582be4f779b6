import SqlLayout.CommandLine.Options
import SqlLayout.CommandLine.Run
import SqlLayout.Settings.Environment

/-!
# The program

The program is run with the parser of options and the loader of environment variables, and does
with the streams of its process what it says.  Standard input is read only if it says so.
-/

namespace SqlLayout

/-- The environment of the program. -/
def readEnvironment : IO Environment := do
  let indent ← IO.getEnv Setting.indent.variableName
  let uppercaseOnly ← IO.getEnv Setting.uppercaseOnly.variableName
  return fun
    | .indent => indent.map String.toList
    | .uppercaseOnly => uppercaseOnly.map String.toList

/-- Everything that a stream still gives. -/
partial def readToEnd (stream : IO.FS.Stream) (sofar : ByteArray) : IO ByteArray := do
  let block ← stream.read 65536
  if block.isEmpty then return sofar else readToEnd stream (sofar ++ block)

/-- Does what a program says, and gives its exit code. -/
def Program.execute : Program → IO UInt32
  | exit code => return code.toUInt32
  | read next => do (next (← readToEnd (← IO.getStdin) ByteArray.empty)).execute
  | print text next => do
    IO.print (String.ofList text)
    next.execute
  | report text next => do
    IO.eprint (String.ofList text)
    next.execute

end SqlLayout

open SqlLayout in
/-- The program. -/
def main (args : List String) : IO UInt32 := do
  (program parseArguments loadSettings (args.map String.toList) (← readEnvironment)).execute
