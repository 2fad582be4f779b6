import SqlLayout.Settings
import SqlLayout.Text.Blank
import SqlLayout.Text.Numeral

/-!
# Settings in environment variables

The loader of settings that the program is run with.  The settings come from two environment
variables.  A value is trimmed before it is read.  A value that cannot be read is a fault, except
that an empty one counts as unset; one that is empty only after trimming does not.  The indent is
read first.

## Main definitions

* `Setting` : the two settings and their variables.
* `Environment` : the values of the variables that are set.
* `SettingFault` : why settings cannot be loaded, with its wording `SettingFault.message`.
* `Settings.load` : the settings that an environment gives.
* `loadSettings` : the loader.

## Main results

* `loadSettings_unset` : without variables the usual settings are loaded.
-/

namespace SqlLayout

/-- A setting that can be given by an environment variable. -/
inductive Setting where
  | indent
  | uppercaseOnly
  deriving DecidableEq

namespace Setting

/-- The name of a setting in messages. -/
def field : Setting → Text
  | indent => "indent".toList
  | uppercaseOnly => "uppercase_only".toList

/-- The environment variable of a setting. -/
def variableName : Setting → String
  | indent => "FORMAT_SQL_INDENT"
  | uppercaseOnly => "FORMAT_SQL_UPPERCASE_ONLY"

end Setting

/-- The values of the environment variables that are set. -/
abbrev Environment := Setting → Option Text

/-- Why settings cannot be loaded; the value is the trimmed one. -/
inductive SettingFault where
  | badIndent (value : Text) (fault : NumeralError)
  | badFlag (value : Text)
  deriving DecidableEq

namespace SettingFault

/-- The setting that is at fault. -/
def setting : SettingFault → Setting
  | badIndent _ _ => .indent
  | badFlag _ => .uppercaseOnly

/-- What is wrong with the value. -/
def reason : SettingFault → Text
  | badIndent value fault =>
    "invalid value '".toList ++ value ++ "' for type u64: ".toList ++ fault.message.toList
  | badFlag value => "invalid value for bool: '".toList ++ value ++ "'".toList

/-- The wording of a fault. -/
def message (f : SettingFault) : Text :=
  "failed to deserialize value `Config::".toList ++ f.setting.field ++
    "` from environment variable `".toList ++ f.setting.variableName.toList ++ "`: ".toList ++
    f.reason

end SettingFault

/-- The truth value that a text denotes in any mixture of ASCII cases. -/
def readFlag? (t : Text) : Option Bool :=
  if t.upper ∈ ["1", "TRUE", "YES"].map String.toList then some true
  else if t.upper ∈ ["0", "FALSE", "NO"].map String.toList then some false
  else none

namespace Settings

/-- The indent that a value gives. -/
def loadIndent : Option Text → Except SettingFault Nat
  | none => .ok usual.indent
  | some value =>
    match readNumeral value.trim with
    | .ok n => .ok n
    | .error fault =>
      if value.isEmpty then .ok usual.indent else .error (.badIndent value.trim fault)

/-- The choice between cleaning and layout that a value gives. -/
def loadUppercaseOnly : Option Text → Except SettingFault Bool
  | none => .ok usual.uppercaseOnly
  | some value =>
    match readFlag? value.trim with
    | some b => .ok b
    | none => if value.isEmpty then .ok usual.uppercaseOnly else .error (.badFlag value.trim)

/-- The settings that an environment gives. -/
def load (env : Environment) : Except SettingFault Settings :=
  match loadIndent (env .indent) with
  | .error fault => .error fault
  | .ok indent =>
    match loadUppercaseOnly (env .uppercaseOnly) with
    | .error fault => .error fault
    | .ok uppercaseOnly => .ok ⟨indent, uppercaseOnly⟩

end Settings

/-- The settings of an environment, or the wording of a fault in it. -/
def loadSettings : SettingsLoader Environment := fun env =>
  (Settings.load env).mapError SettingFault.message

/-- Without variables the usual settings are loaded. -/
theorem loadSettings_unset : loadSettings (fun _ => none) = .ok .usual := rfl

end SqlLayout
