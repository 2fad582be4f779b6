import SqlLayout.CommandLine.Arguments
import SqlLayout.CommandLine.Usage
import SqlLayout.Text.ControlSequence
import SqlLayout.Text.Numeral

/-!
# Options

The parser of arguments that the program is run with.  Arguments are read from left to right.  An
argument with one or two dashes in front is an option, and `--` makes everything behind it a part of
the statement; all other arguments are parts of the statement, and so is a single dash.

The width of an indent is given by `-i` or `--indent`, either attached or as the next argument if
that is no option.  Such a next argument is looked into only when the argument behind it has been
recognized, or at the end: an unknown option behind a bad width is reported before the width.

## Main definitions

* `Switch` : the options of the program.
* `Argument` : what an argument looks like.
* `Request` : what the arguments ask for.
* `Misuse` : why arguments are refused, with its wording `Misuse.message`.
* `Request.ofArguments` : the request that arguments make.
* `parseArguments` : the parser, which refuses arguments and shows help and version by itself.

## Main results

* `isDocumented_parseArguments` : how the parser ends runs.
-/

namespace SqlLayout

/-! ### Options -/

/-- The options of the program. -/
inductive Switch where
  | indent
  | tokens
  | help
  | version
  deriving DecidableEq

namespace Switch

/-- Every option once. -/
def table : List Switch := [indent, tokens, help, version]

/-- The long name of an option. -/
def name : Switch → Text
  | indent => "indent".toList
  | tokens => "tokens".toList
  | help => "help".toList
  | version => "version".toList

/-- The option of a long name.  Names are not abbreviated. -/
def ofName? (name : Text) : Option Switch := table.find? (·.name == name)

/-- The option of a letter. -/
def ofLetter? : Char → Option Switch
  | 'i' => some indent
  | 'h' => some help
  | 'V' => some version
  | _ => none

/-- An option as it is shown in messages. -/
def shown : Switch → Text
  | indent => "--indent <INDENT>".toList
  | switch => "--".toList ++ switch.name

end Switch

/-- What an argument is: the mark that ends the options, an option with the value attached to it,
an option that is not known, or a part of the statement. -/
inductive Argument where
  | endOfOptions
  | option (switch : Switch) (value : Option Text)
  | unknown (shown : Text)
  | plain (text : Text)
  deriving DecidableEq

namespace Argument

/-- The value attached to a long option, given what stands behind its name: nothing, or the sign
`=` and the value. -/
def attached? : Text → Option Text
  | [] => none
  | _ :: value => some value

/-- A long option, given what stands behind its two dashes. -/
def ofLong (t : Text) : Argument :=
  let name := t.takeWhile (· != '=')
  match Switch.ofName? name with
  | some switch => option switch (attached? (t.dropWhile (· != '=')))
  | none => unknown ("--".toList ++ name)

/-- A short option, given its letter and what stands behind that.  Only the width of an indent has
a value, and a sign `=` in front of the value is left out.  Behind other letters nothing is looked
at. -/
def ofShort (letter : Char) (behind : Text) : Argument :=
  match Switch.ofLetter? letter, behind with
  | some .indent, [] => option .indent none
  | some .indent, '=' :: value => option .indent (some value)
  | some .indent, value => option .indent (some value)
  | some switch, _ => option switch none
  | none, _ => unknown ['-', letter]

/-- What an argument is. -/
def ofText : Text → Argument
  | ['-', '-'] => endOfOptions
  | '-' :: '-' :: t => ofLong t
  | '-' :: letter :: behind => ofShort letter behind
  | t => plain t

end Argument

/-! ### Requests -/

/-- What the arguments ask for. -/
inductive Request where
  | help
  | version
  | layout (arguments : Arguments)
  deriving DecidableEq

/-- Why arguments are refused. -/
inductive Misuse where
  | unknown (argument : Text)
  | missingIndent
  | badIndent (value : Text) (fault : NumeralError)
  | repeated (switch : Switch)
  | unexpectedValue (switch : Switch) (value : Text)
  deriving DecidableEq

/-- The wording of a refusal.  What it quotes from the arguments is shown without control sequences
and control characters. -/
def Misuse.message : Misuse → Text
  | unknown argument =>
    "error: unexpected argument '".toList ++ argument.withoutControls ++ "' found".toList
  | missingIndent =>
    "error: a value is required for '".toList ++ Switch.indent.shown ++
      "' but none was supplied".toList
  | badIndent value fault =>
    "error: invalid value '".toList ++ value.withoutControls ++ "' for '".toList ++
      Switch.indent.shown ++ "': ".toList ++ fault.message.toList
  | repeated switch =>
    "error: the argument '".toList ++ switch.shown ++ "' cannot be used multiple times".toList
  | unexpectedValue switch value =>
    "error: unexpected value '".toList ++ value.withoutControls ++ "' for '".toList ++
      switch.shown ++ "' found; no more were expected".toList

/-! ### Reading -/

/-- Where a reader of arguments stands with the width of an indent: none is on its way, one is
expected, or one was given that has not been looked into. -/
inductive Pending where
  | nothing
  | expected
  | given (value : Text)
  deriving DecidableEq

/-- The state of a reader of arguments: what was asked for so far, and what is on its way. -/
structure ArgumentReader where
  arguments : Arguments
  pending : Pending
  deriving DecidableEq

namespace ArgumentReader

/-- The reader in front of all arguments. -/
def start : ArgumentReader := ⟨⟨[], none, false⟩, .nothing⟩

/-- Takes in a width that was given. -/
def setIndent (a : Arguments) (value : Text) : Except Misuse Arguments :=
  if a.indent.isSome then .error (.repeated .indent)
  else
    match readNumeral value with
    | .ok width => .ok { a with indent := some width }
    | .error fault => .error (.badIndent value fault)

/-- Settles what is on its way. -/
def settle (r : ArgumentReader) : Except Misuse Arguments :=
  match r.pending with
  | .nothing => .ok r.arguments
  | .expected => .error .missingIndent
  | .given value => setIndent r.arguments value

/-- Reads the option for the width of an indent. -/
def readIndent (r : ArgumentReader) : Option Text → Except Misuse ArgumentReader
  | none => do return ⟨← r.settle, .expected⟩
  | some value => do return ⟨← setIndent (← r.settle) value, .nothing⟩

/-- Reads the option for the listing of tokens. -/
def readTokens (r : ArgumentReader) : Except Misuse ArgumentReader := do
  let a ← r.settle
  if a.listTokens then .error (.repeated .tokens)
  else return ⟨{ a with listTokens := true }, .nothing⟩

/-- Reads an argument that is no option: the width of an indent where one is expected, and a part
of the statement elsewhere. -/
def readPlain (r : ArgumentReader) (text : Text) : Except Misuse ArgumentReader :=
  match r.pending with
  | .expected => .ok ⟨r.arguments, .given text⟩
  | _ => do
    let a ← r.settle
    return ⟨{ a with parts := a.parts ++ [text] }, .nothing⟩

/-- Reads all arguments.  Help and version end the reading. -/
def readAll (r : ArgumentReader) : List Text → Except Misuse Request
  | [] => do return .layout (← r.settle)
  | t :: ts =>
    match Argument.ofText t with
    | .endOfOptions => do
      let a ← r.settle
      return .layout { a with parts := a.parts ++ ts }
    | .option .indent value => do (← r.readIndent value).readAll ts
    | .option .tokens none => do (← r.readTokens).readAll ts
    | .option .help none => do
      let _ ← r.settle
      return .help
    | .option .version none => do
      let _ ← r.settle
      return .version
    | .option switch (some value) => .error (.unexpectedValue switch value)
    | .unknown shown => .error (.unknown shown)
    | .plain text => do (← r.readPlain text).readAll ts

end ArgumentReader

/-- The request that arguments make. -/
def Request.ofArguments (ts : List Text) : Except Misuse Request :=
  ArgumentReader.start.readAll ts

/-! ### Parsing -/

/-- The end of a run whose arguments are refused. -/
def Misuse.stop (m : Misuse) : Stop := ⟨.misuse, 2, [], m.message ++ ['\n']⟩

/-- What arguments ask for.  Refusals go to the error stream, and help and version to the output. -/
def parseArguments : ArgumentParser := fun args =>
  match Request.ofArguments args with
  | .error misuse => .error misuse.stop
  | .ok .help => .error ⟨.help, 0, helpText ++ ['\n'], []⟩
  | .ok .version => .error ⟨.version, 0, versionText ++ ['\n'], []⟩
  | .ok (.layout a) => .ok a

/-- A refusal exits with the code 2 and no output, and help and version with the code 0. -/
theorem isDocumented_parseArguments : parseArguments.IsDocumented := by
  intro args stop h
  rw [parseArguments] at h
  cases hrequest : Request.ofArguments args with
  | error misuse =>
    rw [hrequest] at h
    obtain rfl := Except.error.inj h
    exact ⟨fun _ => ⟨rfl, rfl⟩, fun hkind => absurd rfl hkind⟩
  | ok request =>
    rw [hrequest] at h
    cases request with
    | help =>
      obtain rfl := Except.error.inj h
      exact ⟨nofun, fun _ => ⟨rfl, List.getLast?_concat⟩⟩
    | version =>
      obtain rfl := Except.error.inj h
      exact ⟨nofun, fun _ => ⟨rfl, List.getLast?_concat⟩⟩
    | layout a => cases h

end SqlLayout
