import SqlLayout.Keyword
import SqlLayout.Lexeme

/-!
# Clean statements

A raw statement is cleaned by trimming it, taking off one terminator with the blank characters in
front of it, and writing in upper case each keyword that stands as a whole word outside of quotes.

## Main definitions

* `Text.upperKeywords` : a text with its keywords in upper case.
* `Statement` : a clean text, and whether a terminator was taken off.
* `Statement.ofText` : the clean form of a raw statement.
* `Statement.text` : a statement with its terminator put back.

## Main results

* `Text.upper_upperKeywords` : nothing but letter case is changed.
-/

namespace SqlLayout

/-! ### Keywords in upper case -/

/-- A word in upper case if it is a keyword, and every other chunk as it is. -/
def Chunk.foldedText : Chunk → Text
  | .word letters => ((Keyword.ofWord? letters).map Keyword.letters).getD letters
  | chunk => chunk.text

/-- The text with each keyword that is a whole word outside of quotes in upper case. -/
def Text.upperKeywords (t : Text) : Text := t.chunks.flatMap Chunk.foldedText

@[simp] theorem Text.upperKeywords_nil : upperKeywords [] = [] := rfl

theorem Chunk.upper_foldedText (chunk : Chunk) : chunk.foldedText.upper = chunk.text.upper := by
  cases chunk with
  | word letters =>
    cases h : Keyword.ofWord? letters with
    | none => simp [foldedText, text, h]
    | some k =>
      have hk : k.letters.upper = letters.upper := Keyword.eqIgnoringCase_of_ofWord? h
      simp [foldedText, text, h, hk]
  | quoted region => rfl
  | blank run => rfl
  | other c => rfl

/-- Nothing but letter case is changed. -/
theorem Text.upper_upperKeywords (t : Text) : t.upperKeywords.upper = t.upper := by
  have key (l : List Chunk) :
      Text.upper (l.flatMap Chunk.foldedText) = Text.upper (l.flatMap Chunk.text) := by
    induction l with
    | nil => rfl
    | cons chunk l ih => simp [ih, Chunk.upper_foldedText]
  rw [upperKeywords, key, flatMap_text_chunks]

/-! ### Statements -/

/-- The character that ends a statement. -/
def terminator : Char := ';'

/-- A clean statement: its text without a terminator, and whether there was one. -/
structure Statement where
  sql : Text
  terminated : Bool
  deriving DecidableEq

/-- The text without the terminator at its end, if it ends in one. -/
def Text.splitTerminator? (t : Text) : Option Text :=
  if t.getLast? = some terminator then some t.dropLast else none

theorem Text.splitTerminator?_eq_some_iff {t body : Text} :
    t.splitTerminator? = some body ↔ t = body ++ [terminator] := by
  unfold splitTerminator?
  constructor
  · intro h
    split at h
    · rename_i hlast
      obtain ⟨init, rfl⟩ := List.getLast?_eq_some_iff.1 hlast
      simp_all
    · simp at h
  · rintro rfl
    simp

namespace Statement

/-- The clean form of a raw statement. -/
def ofText (raw : Text) : Statement :=
  match raw.trim.splitTerminator? with
  | some body => ⟨body.trimEnd.upperKeywords, true⟩
  | none => ⟨raw.trim.upperKeywords, false⟩

/-- What is put behind a statement: a terminator if it is terminated. -/
def ending (terminated : Bool) : Text := if terminated then [terminator] else []

/-- A statement with its terminator put back. -/
def text (s : Statement) : Text := s.sql ++ ending s.terminated

@[simp] theorem ofText_nil : ofText [] = ⟨[], false⟩ := rfl

end Statement

end SqlLayout
