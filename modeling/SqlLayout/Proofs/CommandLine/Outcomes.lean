import SqlLayout.CommandLine.Options
import SqlLayout.CommandLine.Run
import SqlLayout.Settings.Environment

/-!
# Outcomes of runs

The checks of a run come in a fixed order: the arguments, the settings, the input if the statement
is expected there, and the width of the indent if lines are laid out.  The first of them that fails
decides about the exit code, and nothing has been written then; a run that passes them all writes
whole lines.  What a run that lays nothing out writes is the same for every width.

All this holds for every loader of settings and for every parser of arguments that ends runs as it
is documented.

## Main definitions

* `Outcome.IsWhole` : there is output up to a line feed, or a failure and no output.
* `Mode.Overflows` : a layout asks for more spaces than a text can hold.
* `exitCode` : the exit code that the checks of a run give.

## Main results

* `Mode.outcome_display_of_overflows`, `Mode.exists_outcome_display` : what showing a statement
  leaves behind.
* `code_run`, `isWhole_run` : the exit code of a run, and its output.
* `program_congr_width` : the runs in which no width has a part.
* `readsInput_run_iff` : the runs that read the input.
* `run_outcome` : how every run ends.
-/

namespace SqlLayout

/-! ### Outcomes of programs -/

/-- An outcome is whole if a success has output that ends in a line feed, and everything else has no
output. -/
structure Outcome.IsWhole (o : Outcome) : Prop where
  line_feed : o.code = 0 → o.output.getLast? = some '\n'
  silent : o.code ≠ 0 → o.output = []

namespace Program

theorem outcome_printed (t : Text) (input : ByteArray) :
    (printed t).outcome input = ⟨0, t ++ ['\n'], [], false⟩ := by
  simp [printed, success, outcome]

theorem outcome_failure (f : Failure) (input : ByteArray) :
    (failure f).outcome input = ⟨1, [], f.report, false⟩ := by
  simp [failure, outcome]

theorem outcome_overflow (input : ByteArray) :
    overflow.outcome input = ⟨101, [], Indent.overflowMessage.toList ++ ['\n'], false⟩ := by
  simp [overflow, outcome]

theorem outcome_stopped (s : Stop) (input : ByteArray) :
    (stopped s).outcome input = ⟨s.code, s.output, s.report, false⟩ := by
  simp [stopped, outcome]

end Program

/-! ### Parsers -/

namespace ArgumentParser.IsDocumented

variable {parse : ArgumentParser} {args : List Text} {stop : Stop} (hparse : parse.IsDocumented)
  (h : parse args = .error stop) (input : ByteArray)
include hparse h

/-- The exit code of a run that a parser ends. -/
theorem code_stopped :
    ((Program.stopped stop).outcome input).code = if stop.kind = .misuse then 2 else 0 := by
  obtain ⟨hmisuse, hshown⟩ := hparse args stop h
  rw [Program.outcome_stopped]
  split
  case isTrue hkind => exact (hmisuse hkind).1
  case isFalse hkind => exact (hshown hkind).1

/-- A run that a parser ends leaves a whole outcome. -/
theorem isWhole_stopped : ((Program.stopped stop).outcome input).IsWhole := by
  obtain ⟨hmisuse, hshown⟩ := hparse args stop h
  rw [Program.outcome_stopped]
  by_cases hkind : stop.kind = .misuse
  · exact ⟨fun hcode => absurd ((hmisuse hkind).1.symm.trans hcode) (by decide),
      fun _ => (hmisuse hkind).2⟩
  · exact ⟨fun _ => (hshown hkind).2, fun hcode => absurd (hshown hkind).1 hcode⟩

end ArgumentParser.IsDocumented

/-! ### Modes -/

namespace Mode

/-- A mode overflows if it lays lines out with an indent that no text can hold. -/
def Overflows (m : Mode) : Prop := ∃ width, m = layout width ∧ widthBound ≤ width

theorem not_overflows_listing : ¬ listing.Overflows := by rintro ⟨_, h, _⟩; cases h

theorem not_overflows_clean : ¬ clean.Overflows := by rintro ⟨_, h, _⟩; cases h

theorem overflows_layout_iff {width : Nat} : (layout width).Overflows ↔ widthBound ≤ width := by
  simp [Overflows]

variable {m : Mode} (raw : Text) (input : ByteArray)

/-- A statement in a mode that overflows is not shown. -/
theorem outcome_display_of_overflows (h : m.Overflows) :
    (m.display raw).outcome input =
      ⟨101, [], Indent.overflowMessage.toList ++ ['\n'], false⟩ := by
  obtain ⟨width, rfl, hwidth⟩ := h
  rw [display, Indent.ofWidth?_eq_none_iff.2 hwidth, Program.outcome_overflow]

/-- In every other mode there is a text to show. -/
theorem exists_outcome_display (h : ¬ m.Overflows) :
    ∃ t, (m.display raw).outcome input = ⟨0, t ++ ['\n'], [], false⟩ := by
  cases m with
  | listing => exact ⟨_, Program.outcome_printed _ input⟩
  | clean => exact ⟨_, Program.outcome_printed _ input⟩
  | layout width =>
    have hsome := mt Indent.ofWidth?_eq_none_iff.1 (mt overflows_layout_iff.2 h)
    obtain ⟨i, hi⟩ := Option.ne_none_iff_exists'.1 hsome
    exact ⟨reformat i raw, by rw [display, hi, Program.outcome_printed]⟩

variable (m)

theorem isWhole_display : ((m.display raw).outcome input).IsWhole := by
  by_cases h : m.Overflows
  · rw [outcome_display_of_overflows raw input h]
    exact ⟨nofun, fun _ => rfl⟩
  · obtain ⟨t, ht⟩ := exists_outcome_display raw input h
    rw [ht]
    exact ⟨fun _ => List.getLast?_concat, fun hcode => absurd rfl hcode⟩

/-- A statement is shown without a look at the input. -/
theorem readsInput_display : ((m.display raw).outcome input).readsInput = false := by
  by_cases h : m.Overflows
  · rw [outcome_display_of_overflows raw input h]
  · obtain ⟨t, ht⟩ := exists_outcome_display raw input h
    rw [ht]

end Mode

/-! ### Statements -/

namespace Arguments

theorem statement_eq_none_iff {a : Arguments} : a.statement = none ↔ a.parts = [] := by
  simp [statement]

variable {a : Arguments} {next : Text → Program} {input : ByteArray}

/-- The program that goes on with the parts of a statement, if there are any. -/
theorem exists_supply_eq (h : a.parts ≠ []) (next : Text → Program) :
    ∃ raw, a.supply next = next raw := by
  obtain ⟨raw, hraw⟩ := Option.ne_none_iff_exists'.1 (mt statement_eq_none_iff.1 h)
  exact ⟨raw, by rw [supply, hraw]⟩

/-- Without parts of a statement, and with an input that is not UTF-8, there is no statement. -/
theorem outcome_supply_of_not_isValidUTF8 (h : a.parts = []) (hinput : ¬ input.IsValidUTF8) :
    (a.supply next).outcome input = ⟨1, [], Failure.input.report, true⟩ := by
  rw [supply, statement_eq_none_iff.2 h]
  simp [Program.outcome, String.fromUTF8?, hinput, Program.outcome_failure]

/-- Without parts of a statement, an input that is UTF-8 is the statement. -/
theorem outcome_supply_of_isValidUTF8 (h : a.parts = []) (hinput : input.IsValidUTF8) :
    (a.supply next).outcome input =
      { (next (String.fromUTF8 input hinput).toList).outcome .empty with readsInput := true } := by
  rw [supply, statement_eq_none_iff.2 h]
  simp [Program.outcome, String.fromUTF8?, hinput]

/-- The input is read where there are no parts of a statement, if it is not read later on. -/
theorem readsInput_supply_iff (hnext : ∀ raw input, ((next raw).outcome input).readsInput = false)
    (a : Arguments) (input : ByteArray) :
    ((a.supply next).outcome input).readsInput = true ↔ a.parts = [] := by
  by_cases hparts : a.parts = []
  · by_cases hinput : input.IsValidUTF8
    · simp [outcome_supply_of_isValidUTF8 hparts hinput, hparts]
    · simp [outcome_supply_of_not_isValidUTF8 hparts hinput, hparts]
  · obtain ⟨raw, hraw⟩ := exists_supply_eq hparts next
    simp [hraw, hnext, hparts]

/-- If there is a statement, exit code and output are those of the program that goes on with it. -/
theorem exists_outcome_supply (h : ¬ (a.parts = [] ∧ ¬ input.IsValidUTF8))
    (next : Text → Program) :
    ∃ raw rest reads, (a.supply next).outcome input =
      { (next raw).outcome rest with readsInput := reads } := by
  by_cases hparts : a.parts = []
  · have hinput : input.IsValidUTF8 := by simpa [hparts] using h
    exact ⟨_, _, _, outcome_supply_of_isValidUTF8 hparts hinput⟩
  · obtain ⟨raw, hraw⟩ := exists_supply_eq hparts next
    exact ⟨raw, input, ((next raw).outcome input).readsInput, by rw [hraw]⟩

/-- What is shown of a statement is whole, and so is the failure to find one. -/
theorem isWhole_supply (hnext : ∀ raw input, ((next raw).outcome input).IsWhole) (a : Arguments)
    (input : ByteArray) : ((a.supply next).outcome input).IsWhole := by
  by_cases h : a.parts = [] ∧ ¬ input.IsValidUTF8
  · rw [outcome_supply_of_not_isValidUTF8 h.1 h.2]
    exact ⟨nofun, fun _ => rfl⟩
  · obtain ⟨raw, rest, reads, heq⟩ := exists_outcome_supply h next
    rw [heq]
    exact ⟨(hnext raw rest).line_feed, (hnext raw rest).silent⟩

/-- Lines are laid out only if neither tokens nor clean statements are asked for. -/
theorem overflows_mode_iff {s : Settings} :
    (a.mode s).Overflows ↔
      a.listTokens = false ∧ s.uppercaseOnly = false ∧ widthBound ≤ a.indent.getD s.indent := by
  cases htokens : a.listTokens with
  | true => simp [mode, htokens, Mode.not_overflows_listing]
  | false =>
    cases hupper : s.uppercaseOnly with
    | true => simp [mode, htokens, hupper, Mode.not_overflows_clean]
    | false => simp [mode, htokens, hupper, Mode.overflows_layout_iff]

/-- The exit code that arguments and settings give. -/
theorem code_supply (a : Arguments) (s : Settings) (input : ByteArray) :
    ((a.supply fun raw => (a.mode s).display raw).outcome input).code =
      if a.parts = [] ∧ ¬ input.IsValidUTF8 then 1
      else if a.listTokens = false ∧ s.uppercaseOnly = false ∧
          widthBound ≤ a.indent.getD s.indent then 101
      else 0 := by
  split
  case isTrue h => rw [outcome_supply_of_not_isValidUTF8 h.1 h.2]
  case isFalse h =>
    obtain ⟨raw, rest, reads, heq⟩ := exists_outcome_supply h fun raw => (a.mode s).display raw
    rw [heq]
    split
    case isTrue hwidth =>
      rw [Mode.outcome_display_of_overflows raw rest (overflows_mode_iff.2 hwidth)]
    case isFalse hwidth =>
      obtain ⟨t, ht⟩ := Mode.exists_outcome_display raw rest (mt overflows_mode_iff.1 hwidth)
      rw [ht]

end Arguments

/-! ### Runs -/

section

variable {Env : Type} (parse : ArgumentParser) (load : SettingsLoader Env)

/-- The exit code that the checks of a run give in their order: of the arguments, of the settings,
of the input where the statement is expected there, and of the width of the indent where lines are
laid out. -/
def exitCode (args : List Text) (env : Env) (input : ByteArray) : Nat :=
  match parse args with
  | .error stop => if stop.kind = .misuse then 2 else 0
  | .ok a =>
    match load env with
    | .error _ => 1
    | .ok s =>
      if a.parts = [] ∧ ¬ input.IsValidUTF8 then 1
      else if a.listTokens = false ∧ s.uppercaseOnly = false ∧
          widthBound ≤ a.indent.getD s.indent then 101
      else 0

variable {parse load} {args args' : List Text} {env env' : Env}

theorem program_of_stop {stop : Stop} (h : parse args = .error stop) :
    program parse load args env = .stopped stop := by
  rw [program, h]

section Layout

variable {a a' : Arguments} {s s' : Settings} (h : parse args = .ok a)
include h

/-- Settings that cannot be loaded end a run that is asked for a layout, whatever the width in the
arguments. -/
theorem program_of_fault {fault : Text} (hs : load env = .error fault) :
    program parse load args env = .failure (.settings fault) := by
  rw [program, h]
  simp only [Settings.loadOnce, hs]

/-- With settings that can be loaded a run shows the statement as arguments and settings say. -/
theorem program_of_load (hs : load env = .ok s) :
    program parse load args env = a.supply fun raw => (a.mode s).display raw := by
  rw [program, h]
  simp only [Settings.loadOnce, hs]

/-- A listing of tokens goes before cleaning, and no width has a part in it. -/
theorem program_of_listTokens (hlist : a.listTokens = true) (hs : load env = .ok s) :
    program parse load args env = a.supply fun raw => Mode.listing.display raw := by
  rw [program_of_load h hs, Arguments.mode, if_pos hlist]

/-- No width has a part in a run that only cleans. -/
theorem program_of_uppercaseOnly (hlist : a.listTokens = false) (hs : load env = .ok s)
    (hupper : s.uppercaseOnly = true) :
    program parse load args env = a.supply fun raw => Mode.clean.display raw := by
  rw [program_of_load h hs, Arguments.mode, if_neg (by simp [hlist]), if_pos hupper]

/-- Two runs that lay nothing out do the same for the same parts of a statement, whatever widths
arguments and settings have.  In a listing it does not matter whether the settings ask for cleaning
either. -/
theorem program_congr_width (h' : parse args' = .ok a') (hs : load env = .ok s)
    (hs' : load env' = .ok s') (hparts : a'.parts = a.parts)
    (htokens : a'.listTokens = a.listTokens)
    (hmode : a.listTokens = true ∨ s.uppercaseOnly = true ∧ s'.uppercaseOnly = true) :
    program parse load args' env' = program parse load args env := by
  have hsupply : a'.supply = a.supply := by
    funext next
    rw [Arguments.supply, Arguments.statement, hparts, Arguments.supply, Arguments.statement]
  cases hlist : a.listTokens with
  | true =>
    rw [program_of_listTokens h' (htokens.trans hlist) hs', program_of_listTokens h hlist hs,
      hsupply]
  | false =>
    obtain ⟨hupper, hupper'⟩ := hmode.resolve_left (by simp [hlist])
    rw [program_of_uppercaseOnly h' (htokens.trans hlist) hs' hupper',
      program_of_uppercaseOnly h hlist hs hupper, hsupply]

end Layout

variable (parse load args env) (input : ByteArray)

/-- The input is read if and only if a layout is asked for whose statement has no part in the
arguments, and the settings can be loaded. -/
theorem readsInput_run_iff :
    (run parse load args env input).readsInput = true ↔
      ∃ a s, parse args = .ok a ∧ load env = .ok s ∧ a.parts = [] := by
  rw [run]
  cases hparse : parse args with
  | error stop => simp [program_of_stop hparse, Program.outcome_stopped]
  | ok a =>
    cases hs : load env with
    | error fault => simp [program_of_fault hparse hs, Program.outcome_failure]
    | ok s =>
      have hreads := Arguments.readsInput_supply_iff
        (fun raw input => (a.mode s).readsInput_display raw input) a input
      simp [program_of_load hparse hs, hreads]

variable {parse} (hparse : parse.IsDocumented)
include hparse

/-- Every run leaves a whole outcome. -/
theorem isWhole_run : (run parse load args env input).IsWhole := by
  rw [run]
  cases hargs : parse args with
  | error stop =>
    rw [program_of_stop hargs]
    exact hparse.isWhole_stopped hargs input
  | ok a =>
    cases hs : load env with
    | error fault =>
      rw [program_of_fault hargs hs, Program.outcome_failure]
      exact ⟨nofun, fun _ => rfl⟩
    | ok s =>
      rw [program_of_load hargs hs]
      exact Arguments.isWhole_supply (fun raw input => (a.mode s).isWhole_display raw input) a input

/-- The exit code of a run as its checks decide it in their order. -/
theorem code_run : (run parse load args env input).code = exitCode parse load args env input := by
  rw [run, exitCode]
  cases hargs : parse args with
  | error stop =>
    rw [program_of_stop hargs]
    exact hparse.code_stopped hargs input
  | ok a =>
    cases hs : load env with
    | error fault => rw [program_of_fault hargs hs, Program.outcome_failure]
    | ok s =>
      rw [program_of_load hargs hs]
      exact a.code_supply s input

end

/-- Each failure in front of all those that would come behind it. -/
example :
    let code := exitCode parseArguments loadSettings
    let huge := ["-i", "9223372036854775808"].map String.toList
    let faulty : Environment := fun _ => some "?".toList
    let unset : Environment := fun _ => none
    code (huge ++ ["-x".toList]) faulty ⟨#[255]⟩ = 2 ∧ code huge faulty ⟨#[255]⟩ = 1 ∧
      code huge unset ⟨#[255]⟩ = 1 ∧ code (huge ++ [[]]) unset ⟨#[255]⟩ = 101 ∧
      code [] unset ⟨#[]⟩ = 0 := by
  decide +kernel

/-- How a run ends, with any loader of settings and any parser of arguments that ends runs as
documented.  The arguments, the settings, the input and the width of the indent are checked in this
order, and the first check that fails gives the exit code.  There is output up to a line feed, or a
failure and no output.  The input is read only where the statement is expected there, and does not
matter elsewhere.  Where the settings cannot be loaded nothing but that is reported.  A listing of
tokens goes before cleaning, and neither of them depends on a width. -/
theorem run_outcome {Env : Type} {parse : ArgumentParser} (hparse : parse.IsDocumented)
    (load : SettingsLoader Env) (args : List Text) (env : Env) (input : ByteArray) :
    let o := run parse load args env input
    o.code = exitCode parse load args env input ∧
      (o.code = 0 → o.output.getLast? = some '\n') ∧
      (o.code ≠ 0 → o.output = []) ∧
      (o.readsInput = true ↔ ∃ a s, parse args = .ok a ∧ load env = .ok s ∧ a.parts = []) ∧
      (o.readsInput = false → ∀ input', run parse load args env input' = o) ∧
      ∀ a, parse args = .ok a →
        (∀ fault, load env = .error fault →
          program parse load args env = .failure (.settings fault)) ∧
        ∀ s, load env = .ok s →
          (a.listTokens = true →
            program parse load args env = a.supply fun raw => Mode.listing.display raw) ∧
          ∀ args' env' a' s', parse args' = .ok a' → load env' = .ok s' → a'.parts = a.parts →
            a'.listTokens = a.listTokens →
            (a.listTokens = true ∨ s.uppercaseOnly = true ∧ s'.uppercaseOnly = true) →
            program parse load args' env' = program parse load args env := by
  intro o
  have hwhole := isWhole_run load args env input hparse
  refine ⟨code_run load args env input hparse, hwhole.line_feed, hwhole.silent,
    readsInput_run_iff parse load args env input, fun hreads => Program.outcome_congr hreads, ?_⟩
  intro a hargs
  refine ⟨fun fault hs => program_of_fault hargs hs, fun s hs =>
    ⟨fun hlist => program_of_listTokens hargs hlist hs, ?_⟩⟩
  intro args' env' a' s' hargs' hs' hparts htokens hmode
  exact program_congr_width hargs hargs' hs hs' hparts htokens hmode

/-- A listing whose indent in the arguments no text can hold, a listing whose indent in the settings
is such, and settings that cannot be loaded in front of an input that is not UTF-8. -/
theorem run_outcome_of_huge_indent :
    let args := ["--tokens", "-i", "9223372036854775808", "select 1"].map String.toList
    let args' := ["select 1", "--tokens"].map String.toList
    let env : Environment := fun _ => none
    let env' : Environment
      | .indent => some "9223372036854775808".toList
      | .uppercaseOnly => some "yes".toList
    let faulty : Environment
      | .indent => some "+".toList
      | .uppercaseOnly => none
    parseArguments.IsDocumented ∧
      (run parseArguments loadSettings args env .empty).code = 0 ∧
      (∀ input, run parseArguments loadSettings args env input =
        run parseArguments loadSettings args env .empty) ∧
      program parseArguments loadSettings args' env' =
        program parseArguments loadSettings args env ∧
      program parseArguments loadSettings (["-i", "9223372036854775808"].map String.toList) faulty =
        .failure (.settings (SettingFault.badIndent "+".toList .notDigit).message) := by
  intro args args' env env' faulty
  have hargs : parseArguments args =
      .ok ⟨["select 1".toList], some 9223372036854775808, true⟩ := rfl
  have hargs' : parseArguments args' = .ok ⟨["select 1".toList], none, true⟩ := rfl
  have hparse := isDocumented_parseArguments
  obtain ⟨hcode, -, -, -, hinput, hlayout⟩ := run_outcome hparse loadSettings args env .empty
  refine ⟨hparse, hcode.trans (by decide +kernel), hinput (by decide +kernel), ?_, ?_⟩
  · exact ((hlayout _ hargs).2 .usual loadSettings_unset).2 args' env' _
      ⟨9223372036854775808, true⟩ hargs' rfl rfl rfl (.inl rfl)
  · exact ((run_outcome hparse loadSettings _ faulty ⟨#[255]⟩).2.2.2.2.2 _ rfl).1 _ rfl

end SqlLayout
