/-!
# Texts

A text is a list of Unicode scalar values.  Everything the library reads and writes is a text;
strings occur only where the program meets its surroundings.  This file holds the operations on
texts that need no table of character classes: ASCII letter case, length in UTF-8 bytes, and the
removal of leading letters whose case does not matter.

## Main definitions

* `Text.upper` : the ASCII letters of a text in upper case, everything else unchanged.
* `Text.EqIgnoringCase` : equality up to the case of ASCII letters.
* `Text.utf8Size` : the length of the UTF-8 encoding.
* `Text.splitLetters?` : a text cut behind given letters, their case ignored.

## Main results

* `Text.splitLetters?_eq_some_iff` : the cut loses nothing, and the part in front of it spells the
  letters.
-/

namespace SqlLayout

/-- A text: a sequence of Unicode scalar values. -/
abbrev Text := List Char

namespace Text

/-! ### Letter case -/

/-- The text with its ASCII letters in upper case.  No other character is changed, so the result
has the length of the text. -/
def upper (t : Text) : Text := t.map Char.toUpper

@[simp] theorem upper_nil : upper [] = [] := rfl

@[simp] theorem upper_cons (c : Char) (t : Text) : upper (c :: t) = c.toUpper :: upper t := rfl

@[simp] theorem upper_append (s t : Text) : upper (s ++ t) = upper s ++ upper t :=
  List.map_append

@[simp] theorem length_upper (t : Text) : (upper t).length = t.length :=
  List.length_map _

/-- Two texts are equal up to the case of ASCII letters. -/
def EqIgnoringCase (s t : Text) : Prop := upper s = upper t

instance (s t : Text) : Decidable (EqIgnoringCase s t) :=
  inferInstanceAs (Decidable (upper s = upper t))

/-! ### Length in bytes -/

/-- The number of bytes of the UTF-8 encoding. -/
def utf8Size : Text → Nat
  | [] => 0
  | c :: t => c.utf8Size + utf8Size t

theorem utf8Size_append (s t : Text) : utf8Size (s ++ t) = utf8Size s + utf8Size t := by
  induction s with
  | nil => simp [utf8Size]
  | cons c s ih => simp [utf8Size, ih, Nat.add_assoc]

/-! ### Leading letters -/

/-- Cuts a text behind the given letters if it starts with them in any mixture of ASCII cases:
the part that spells them, and what follows. -/
def splitLetters? : Text → Text → Option (Text × Text)
  | [], t => some ([], t)
  | _ :: _, [] => none
  | l :: ls, c :: t =>
    if c.toUpper = l.toUpper then
      (splitLetters? ls t).map fun cut => (c :: cut.1, cut.2)
    else none

/-- The two parts of a cut make up the text, and the part in front is the given letters, their case
ignored. -/
theorem splitLetters?_eq_some_iff {letters t spelled rest : Text} :
    splitLetters? letters t = some (spelled, rest) ↔
      spelled ++ rest = t ∧ upper spelled = upper letters := by
  induction letters generalizing t spelled with
  | nil =>
    have hnil : upper spelled = upper [] ↔ spelled = [] := List.map_eq_nil_iff
    rw [hnil]
    constructor
    · rintro ⟨⟩
      exact ⟨rfl, rfl⟩
    · rintro ⟨rfl, rfl⟩
      rfl
  | cons l ls ih =>
    cases t with
    | nil => cases spelled <;> simp [splitLetters?]
    | cons c t =>
      simp only [splitLetters?, Option.ite_none_right_eq_some, Option.map_eq_some_iff]
      constructor
      · rintro ⟨hc, ⟨s, r⟩, hs, ⟨⟩⟩
        obtain ⟨rfl, hupper⟩ := ih.1 hs
        exact ⟨rfl, by rw [upper_cons, upper_cons, hc, hupper]⟩
      · rintro ⟨happend, hupper⟩
        cases spelled with
        | nil => cases hupper
        | cons d spelled =>
          obtain ⟨rfl, htail⟩ := List.cons.inj happend
          obtain ⟨hc, hs⟩ := List.cons.inj hupper
          exact ⟨hc, (spelled, rest), ih.2 ⟨htail, hs⟩, rfl⟩

end Text

end SqlLayout
