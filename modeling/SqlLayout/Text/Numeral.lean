import SqlLayout.Text.Basic

/-!
# Unsigned numerals

A numeral is a non-empty sequence of ASCII digits, with at most one `+` in front, for a number
below `2 ^ 64`.  Reading goes from left to right and reports the first fault it meets: a character
that is no digit, or a digit that carries the number beyond the bound.  A sign with nothing behind
it counts as a character that is no digit.

## Main definitions

* `NumeralError` : why a text is no numeral, with its wording `NumeralError.message`.
* `readNumeral` : the number that a numeral denotes.
-/

namespace SqlLayout

/-- Why a text is no numeral. -/
inductive NumeralError where
  | empty
  | notDigit
  | tooLarge
  deriving DecidableEq

/-- The wording of a fault in a numeral. -/
def NumeralError.message : NumeralError → String
  | empty => "cannot parse integer from empty string"
  | notDigit => "invalid digit found in string"
  | tooLarge => "number too large to fit in target type"

/-- The first number that is too large. -/
def numeralBound : Nat := Nat.pow 2 64

/-- Reads digits behind those that gave the number so far. -/
def readDigits (sofar : Nat) : Text → Except NumeralError Nat
  | [] => .ok sofar
  | c :: t =>
    if c.isDigit then
      let n := 10 * sofar + (c.toNat - '0'.toNat)
      if n < numeralBound then readDigits n t else .error .tooLarge
    else .error .notDigit

/-- The number that a numeral denotes. -/
def readNumeral : Text → Except NumeralError Nat
  | [] => .error .empty
  | '+' :: d :: t => readDigits 0 (d :: t)
  | t => readDigits 0 t

end SqlLayout
