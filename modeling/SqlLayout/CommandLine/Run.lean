import SqlLayout.CommandLine.Arguments
import SqlLayout.CommandLine.Program
import SqlLayout.Layout.Page
import SqlLayout.Settings
import SqlLayout.Token.Listing

/-!
# Runs

A run parses its arguments, then loads the settings, then takes the statement from the arguments or,
if they have no part of one, from the input, which must be UTF-8.  The indent is looked at next, and
only if lines are laid out.  What is shown is written at the very end.  The parser of arguments and
the loader of settings are those of the surroundings, and a run is given both.

## Main definitions

* `Failure` : why a run fails, with its wording `Failure.message`.
* `Mode` : how a statement is shown, and the program that shows it, `Mode.display`.
* `Arguments.supply` : the program that goes on with the statement.
* `program` : what a run does.
* `run` : the outcome of a run.
-/

namespace SqlLayout

/-! ### Failures -/

/-- Why a run fails: its input is not UTF-8, or its settings cannot be loaded, with the wording of
what is wrong with them. -/
inductive Failure where
  | input
  | settings (fault : Text)
  deriving DecidableEq

namespace Failure

/-- What is wrong with an input that is not UTF-8. -/
def badInput : Text := "stream did not contain valid UTF-8".toList

/-- The wording of a failure. -/
def message : Failure → Text
  | input => "I/O error: ".toList ++ badInput
  | settings fault => "Configuration error: ".toList ++ fault

/-- The line that reports a failure at the end of a run.  It shows the failure as data. -/
def report : Failure → Text
  | input =>
    "Error: Io(Error \x7b kind: InvalidData, message: \"".toList ++ badInput ++
      "\" \x7d)\n".toList
  | settings fault => "Error: Config(".toList ++ fault ++ ")\n".toList

end Failure

namespace Program

/-- The program that fails. -/
def failure (f : Failure) : Program := report f.report (exit 1)

/-- The program that is stopped in front of an indent that no text can hold. -/
def overflow : Program := report (Indent.overflowMessage.toList ++ ['\n']) (exit 101)

/-- The program that a parser of arguments ends. -/
def stopped (s : Stop) : Program := print s.output (report s.report (exit s.code))

end Program

/-! ### Modes -/

/-- How a statement is shown: by its tokens, cleaned, or laid out with an indent of some width. -/
inductive Mode where
  | listing
  | clean
  | layout (width : Nat)
  deriving DecidableEq

/-- The program that shows a statement in some mode. -/
def Mode.display (raw : Text) : Mode → Program
  | listing => .printed (Token.listing (Statement.ofText raw).sql.tokens)
  | clean => .printed (Statement.ofText raw).text
  | layout width =>
    match Indent.ofWidth? width with
    | some indent => .printed (reformat indent raw)
    | none => .overflow

/-- The way of showing a statement.  A listing goes before everything else, and the width of an
indent in the arguments before the one in the settings. -/
def Arguments.mode (a : Arguments) (s : Settings) : Mode :=
  if a.listTokens then .listing
  else if s.uppercaseOnly then .clean
  else .layout (a.indent.getD s.indent)

/-! ### Runs -/

/-- Goes on with the statement that arguments make, or else with the one that the input makes. -/
def Arguments.supply (a : Arguments) (next : Text → Program) : Program :=
  match a.statement with
  | some raw => next raw
  | none =>
    .read fun input =>
      match String.fromUTF8? input with
      | some raw => next raw.toList
      | none => .failure .input

section

variable {Env : Type} (parse : ArgumentParser) (load : SettingsLoader Env)

/-- What a run does.  No settings have been loaded in front of it. -/
def program (args : List Text) (env : Env) : Program :=
  match parse args with
  | .error stop => .stopped stop
  | .ok arguments =>
    match Settings.loadOnce load none env with
    | .error fault => .failure (.settings fault)
    | .ok settings => arguments.supply fun raw => (arguments.mode settings).display raw

/-- The outcome of a run. -/
def run (args : List Text) (env : Env) (input : ByteArray) : Outcome :=
  (program parse load args env).outcome input

end

end SqlLayout
