import SqlLayout.Text.Basic

/-!
# Settings

Settings are loaded from an environment.  A loader of settings is not part of this library's theory:
it is a function that finds the settings of an environment or a fault in it.

## Main definitions

* `Settings` : the settings of a run, with `Settings.usual` where nothing is set.
* `SettingsLoader` : the loaders of settings.
* `Settings.loadOnce` : settings that are loaded once and kept.
-/

namespace SqlLayout

/-- The settings of a run: the width of an indent, and whether a statement is only cleaned and not
laid out. -/
structure Settings where
  indent : Nat
  uppercaseOnly : Bool
  deriving DecidableEq

/-- A loader finds settings, or the wording of a fault. -/
abbrev SettingsLoader (Env : Type) := Env → Except Text Settings

namespace Settings

/-- The settings that are used when nothing is set. -/
def usual : Settings := ⟨4, false⟩

/-- Settings that were loaded before are kept, whatever the environment says now. -/
def loadOnce {Env : Type} (load : SettingsLoader Env) (kept : Option Settings) (env : Env) :
    Except Text Settings :=
  match kept with
  | some settings => .ok settings
  | none => load env

end Settings

end SqlLayout
