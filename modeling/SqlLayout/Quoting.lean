import SqlLayout.Text.Basic

/-!
# Quoted regions

A quote character opens a region that runs to its next occurrence which no backslash escapes.
Inside a region a backslash escapes the character behind it; outside it is a character like any
other.  A region that is never closed runs to the end of the text.

## Main definitions

* `Quote` : the three quote characters.
* `Quoting` : the state of a reader between two characters.
* `Quoting.next`, `Quoting.after` : the state behind a character, and behind a text.
* `Quoting.covers` : whether a character belongs to a quoted region, its two quotes included.

## Main results

* `Quoting.after_append` : a text is read part by part.
* `Quoting.covers_of_isOpen` : every character inside an open region belongs to it.
-/

namespace SqlLayout

/-- The characters that open and close quoted regions. -/
inductive Quote where
  | single
  | double
  | back
  deriving DecidableEq

namespace Quote

/-- The character of a quote. -/
def char : Quote → Char
  | single => '\''
  | double => '"'
  | back => '\x60'

/-- The quote that a character is, if it is one. -/
def ofChar? (c : Char) : Option Quote :=
  if c = '\'' then some single
  else if c = '"' then some double
  else if c = '\x60' then some back
  else none

@[simp] theorem ofChar?_char (q : Quote) : ofChar? q.char = some q := by
  cases q <;> rfl

theorem ofChar?_eq_some_iff {c : Char} {q : Quote} : ofChar? c = some q ↔ c = q.char := by
  constructor
  · intro h
    unfold ofChar? at h
    split at h
    · cases h; assumption
    · split at h
      · cases h; assumption
      · split at h
        · cases h; assumption
        · cases h
  · rintro rfl
    exact ofChar?_char q

end Quote

/-- Whether a character opens a quoted region. -/
def isQuote (c : Char) : Bool := (Quote.ofChar? c).isSome

/-- The state of a reader of quoted regions: outside of all regions, inside one, or inside one
behind a backslash that escapes the next character. -/
inductive Quoting where
  | outside
  | inside (quote : Quote)
  | escaped (quote : Quote)
  deriving DecidableEq

namespace Quoting

/-- Whether a region is open. -/
def isOpen : Quoting → Bool
  | outside => false
  | inside _ => true
  | escaped _ => true

/-- The state behind a character. -/
def next : Quoting → Char → Quoting
  | outside, c =>
    match Quote.ofChar? c with
    | some q => inside q
    | none => outside
  | inside q, c => if c = '\\' then escaped q else if c = q.char then outside else inside q
  | escaped q, _ => inside q

/-- Whether a character belongs to a quoted region: it lies inside one or opens one.  The quote
that closes a region still belongs to it. -/
def covers : Quoting → Char → Bool
  | outside, c => isQuote c
  | inside _, _ => true
  | escaped _, _ => true

/-- The state behind a text. -/
def after (s : Quoting) (t : Text) : Quoting := t.foldl next s

@[simp] theorem after_nil (s : Quoting) : s.after [] = s := rfl

@[simp] theorem after_cons (s : Quoting) (c : Char) (t : Text) :
    s.after (c :: t) = (s.next c).after t := rfl

/-- A text is read part by part. -/
theorem after_append (s : Quoting) (t u : Text) : s.after (t ++ u) = (s.after t).after u :=
  List.foldl_append

/-- Every character inside an open region belongs to it. -/
theorem covers_of_isOpen {s : Quoting} (h : s.isOpen = true) (c : Char) :
    s.covers c = true := by
  cases s <;> simp_all [isOpen, covers]

/-- A character that belongs to no region leaves the reader outside. -/
theorem next_of_not_covers {s : Quoting} {c : Char} (h : s.covers c = false) :
    s = outside ∧ s.next c = outside := by
  cases s with
  | outside =>
    have hnone : Quote.ofChar? c = none := by simpa [covers, isQuote] using h
    exact ⟨rfl, by simp [next, hnone]⟩
  | inside q => simp [covers] at h
  | escaped q => simp [covers] at h

end Quoting

end SqlLayout
