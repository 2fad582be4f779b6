import SqlLayout.Text.Basic

/-!
# Indents

An indent is a number of spaces in front of a line.  Widths of `2 ^ 63` and more exceed what a text
can hold, and there is no indent of such a width.

## Main definitions

* `Indent` : the spaces in front of an indented line.
* `Indent.ofWidth?` : the indent of a width, if there is one.
* `Indent.pad` : the spaces themselves.

## Main results

* `Indent.ofWidth?_eq_none_iff` : which widths have no indent.
-/

namespace SqlLayout

/-- The first width that exceeds what a text can hold. -/
def widthBound : Nat := Nat.pow 2 63

/-- The spaces in front of an indented line. -/
structure Indent where
  width : Nat
  width_lt : width < widthBound := by decide
  deriving DecidableEq

namespace Indent

/-- The indent of a width, if a text can hold that many spaces. -/
def ofWidth? (width : Nat) : Option Indent :=
  if h : width < widthBound then some ⟨width, h⟩ else none

/-- What is reported of a width that has no indent. -/
def overflowMessage : String := "capacity overflow"

/-- The indent that is used when none is asked for. -/
def usual : Indent := ⟨4, by decide⟩

/-- The spaces of an indent. -/
def pad (i : Indent) : Text := List.replicate i.width ' '

@[simp] theorem length_pad (i : Indent) : i.pad.length = i.width := List.length_replicate

/-- The widths that have no indent. -/
theorem ofWidth?_eq_none_iff {width : Nat} : ofWidth? width = none ↔ widthBound ≤ width := by
  simp [ofWidth?]

end Indent

end SqlLayout
