import SqlLayout.Text.Basic

/-!
# Arguments

What the arguments of a run ask for.  A parser of arguments is not part of this library's theory: it
is a function that either finds out what is asked for or ends the run by itself, because it refuses
the arguments or has shown help or the version.  All that is relied on is how it ends runs.

## Main definitions

* `Arguments` : what the arguments ask for, if they ask for a layout.
* `Stop` : the end of a run by a parser.
* `ArgumentParser` : the parsers of arguments.
* `ArgumentParser.IsDocumented` : the exit codes and the output of a parser that ends a run.
-/

namespace SqlLayout

/-- What a run is asked to do: the parts of the statement, the width of an indent if it is given,
and whether the tokens are listed. -/
structure Arguments where
  parts : List Text
  indent : Option Nat
  listTokens : Bool
  deriving DecidableEq

/-- The statement that arguments make: their parts with single spaces between them. -/
def Arguments.statement (a : Arguments) : Option Text :=
  if a.parts.isEmpty then none else some ([' '].intercalate a.parts)

/-- Why a parser ends a run. -/
inductive StopKind where
  | misuse
  | help
  | version
  deriving DecidableEq

/-- The end of a run by a parser: its exit code, and what is written as output and as an error. -/
structure Stop where
  kind : StopKind
  code : Nat
  output : Text
  report : Text
  deriving DecidableEq

/-- A parser finds out what arguments ask for, or ends the run. -/
abbrev ArgumentParser := List Text → Except Stop Arguments

/-- A parser refuses arguments with the exit code 2 and writes no output then.  It shows help and
the version as whole lines of output, and the exit code is 0. -/
def ArgumentParser.IsDocumented (parse : ArgumentParser) : Prop :=
  ∀ args stop, parse args = .error stop →
    (stop.kind = .misuse → stop.code = 2 ∧ stop.output = []) ∧
    (stop.kind ≠ .misuse → stop.code = 0 ∧ stop.output.getLast? = some '\n')

end SqlLayout
