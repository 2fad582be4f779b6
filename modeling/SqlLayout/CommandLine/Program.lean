import SqlLayout.Text.Basic

/-!
# Programs

A program reads its input, writes output and reports errors, one thing behind the other, until it
exits with a code.  What it has read may decide how it goes on.  Nothing ties its output to its exit
code.

## Main definitions

* `Program` : what a program does.
* `Outcome` : what a program leaves behind.
* `Program.outcome` : the outcome of a program on an input.

## Main results

* `Program.outcome_congr` : an input that is not read does not matter.
-/

namespace SqlLayout

/-- What a program does: it exits with a code, or reads all of its input, writes output or reports
an error, and goes on. -/
inductive Program where
  | exit (code : Nat)
  | read (next : ByteArray → Program)
  | print (text : Text) (next : Program)
  | report (text : Text) (next : Program)

/-- What a program leaves behind: its exit code, all that it has written as output, all that it has
reported, and whether it has read its input. -/
structure Outcome where
  code : Nat
  output : Text
  report : Text
  readsInput : Bool
  deriving DecidableEq

namespace Program

/-- The outcome of a program on an input.  When the input has been read nothing of it is left. -/
def outcome (input : ByteArray) : Program → Outcome
  | exit code => ⟨code, [], [], false⟩
  | read next => { (next input).outcome .empty with readsInput := true }
  | print text next =>
    let o := next.outcome input
    { o with output := text ++ o.output }
  | report text next =>
    let o := next.outcome input
    { o with report := text ++ o.report }

/-- The program that only writes output. -/
def success (output : Text) : Program := print output (exit 0)

/-- The program that writes a text and a line feed behind it. -/
def printed (t : Text) : Program := success (t ++ ['\n'])

theorem printed_inj {t u : Text} : printed t = printed u ↔ t = u := by
  simp [printed, success]

/-- A program that does not read its input does the same with every input. -/
theorem outcome_congr {p : Program} {input : ByteArray}
    (h : (p.outcome input).readsInput = false) (input' : ByteArray) :
    p.outcome input' = p.outcome input := by
  induction p with
  | exit code => rfl
  | read next _ => cases h
  | print text next ih => rw [outcome, outcome, ih h]
  | report text next ih => rw [outcome, outcome, ih h]

end Program

end SqlLayout
