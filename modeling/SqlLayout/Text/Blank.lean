import SqlLayout.Text.Basic
import SqlLayout.Text.CodeRange

/-!
# Blank characters

A character is blank when it has the Unicode property `White_Space`.  The zero-width characters
U+180E, U+200B, U+2060 and U+FEFF and the separators U+001C to U+001F do not have it.

## Main definitions

* `isBlank` : the class of blank characters.
* `Text.IsBlank` : a text of blank characters only.
* `Text.trimStart`, `Text.trimEnd`, `Text.trim` : a text without the blank characters at its
  start, its end, or both.

## Main results

* `Text.trimStart_eq_self` : a text that begins with no blank character is left as it is.
-/

namespace SqlLayout

/-- The code points with the property `White_Space`, in ascending order. -/
def blankRanges : List CodeRange :=
  [⟨0x9, 0xD⟩, ⟨0x20, 0x20⟩, ⟨0x85, 0x85⟩, ⟨0xA0, 0xA0⟩, ⟨0x1680, 0x1680⟩, ⟨0x2000, 0x200A⟩,
    ⟨0x2028, 0x2029⟩, ⟨0x202F, 0x202F⟩, ⟨0x205F, 0x205F⟩, ⟨0x3000, 0x3000⟩]

/-- Blank characters have the Unicode property `White_Space`. -/
def isBlank (c : Char) : Bool := CodeRange.covers blankRanges c.toNat

@[simp] theorem isBlank_space : isBlank ' ' = true := by decide

namespace Text

/-! ### Blank texts -/

/-- A text of blank characters only; the empty text is one. -/
def IsBlank (t : Text) : Prop := ∀ c ∈ t, isBlank c = true

instance (t : Text) : Decidable t.IsBlank :=
  inferInstanceAs (Decidable (∀ c ∈ t, isBlank c = true))

theorem isBlank_nil : IsBlank [] := List.forall_mem_nil _

theorem IsBlank.append {t u : Text} (ht : t.IsBlank) (hu : u.IsBlank) : (t ++ u).IsBlank :=
  List.forall_mem_append.2 ⟨ht, hu⟩

theorem isBlank_takeWhile (t : Text) : IsBlank (t.takeWhile isBlank) :=
  List.all_eq_true.1 List.all_takeWhile

/-! ### Trimming -/

/-- The text without the blank characters at its start. -/
def trimStart (t : Text) : Text := t.dropWhile isBlank

/-- The text without the blank characters at its end. -/
def trimEnd (t : Text) : Text := (t.reverse.dropWhile isBlank).reverse

/-- The text without the blank characters at both of its ends. -/
def trim (t : Text) : Text := t.trimStart.trimEnd

@[simp] theorem trimStart_nil : trimStart [] = [] := rfl

@[simp] theorem trimEnd_nil : trimEnd [] = [] := rfl

@[simp] theorem trim_nil : trim [] = [] := rfl

theorem trimStart_eq_self {c : Char} {t : Text} (h : isBlank c = false) :
    trimStart (c :: t) = c :: t :=
  List.dropWhile_cons_of_neg (by simp [h])

/-- The blank characters at the start of a text, and the text behind them, make up the text. -/
theorem takeWhile_append_trimStart (t : Text) : t.takeWhile isBlank ++ t.trimStart = t :=
  List.takeWhile_append_dropWhile

end Text

end SqlLayout
