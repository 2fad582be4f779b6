import SqlLayout.Token.Basic

/-!
# Token listings

A listing shows one token behind the other, each in a record that begins with the name of its kind,
padded with spaces to eight columns, and goes on with its text.  Line feeds stand between the
records.

## Main definitions

* `Token.record` : the record of a token.
* `Token.listing` : the records of tokens.

## Main results

* `Kind.length_label` : the name of every kind fits into the columns.
-/

namespace SqlLayout

/-- The number of columns of the name of a kind. -/
def labelWidth : Nat := 8

/-- The name of a kind, padded with spaces. -/
def Kind.label (k : Kind) : Text :=
  k.name.toList ++ List.replicate (labelWidth - k.name.toList.length) ' '

/-- The record of a token in a listing. -/
def Token.record (t : Token) : Text := t.kind.label ++ t.text

/-- The records of tokens with line feeds between them. -/
def Token.listing (ts : List Token) : Text := ['\n'].intercalate (ts.map Token.record)

/-- The name of every kind fits into the columns. -/
theorem Kind.length_label (k : Kind) : k.label.length = labelWidth := by
  cases k <;> decide

end SqlLayout
