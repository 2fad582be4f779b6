import SqlLayout.Proofs.Scan.Words

/-!
# Letter case, quotes and bytes

Letters neither open nor close a quoted region, and none of them is the backslash that escapes the
character behind it.  So texts that differ in letter case only have the same quoted regions.  They
also have the same length in bytes, since ASCII letters take one byte in either case.

## Main definitions

* `Quoting.mask` : which characters of a text belong to quoted regions.

## Main results

* `Quoting.mask_congr_upper` : letter case does not matter to quoted regions.
* `Text.utf8Size_congr_upper` : letter case does not matter to the length in bytes.
-/

namespace SqlLayout

namespace Quoting

/-- For each character of a text, whether it belongs to a quoted region. -/
def mask : Quoting → Text → List Bool
  | _, [] => []
  | s, c :: t => s.covers c :: (s.next c).mask t

/-- Word characters are all the same to a reader of quotes. -/
theorem next_congr_of_isWordChar {c d : Char} (hc : isWordChar c = true) (hd : isWordChar d = true)
    (s : Quoting) : s.next c = s.next d ∧ s.covers c = s.covers d := by
  have hbackslash {b : Char} (hb : isWordChar b = true) : b ≠ '\\' := by
    rintro rfl
    exact absurd hb (by decide)
  have hquote {b : Char} (hb : isWordChar b = true) (q : Quote) : b ≠ q.char := by
    rintro rfl
    rw [isWordChar_quote] at hb
    cases hb
  cases s with
  | outside =>
    have hc := isQuote_of_isWordChar hc
    have hd := isQuote_of_isWordChar hd
    exact ⟨by rw [next_outside_of_not_isQuote hc, next_outside_of_not_isQuote hd], hc.trans hd.symm⟩
  | inside q =>
    simp [next, covers, hbackslash hc, hbackslash hd, hquote hc q, hquote hd q]
  | escaped q => exact ⟨rfl, rfl⟩

@[simp] theorem next_toUpper (s : Quoting) (c : Char) : s.next c.toUpper = s.next c := by
  rcases toUpper_eq_self_or c with h | ⟨hupper, h⟩
  · rw [h]
  · exact (next_congr_of_isWordChar hupper h s).1

@[simp] theorem covers_toUpper (s : Quoting) (c : Char) : s.covers c.toUpper = s.covers c := by
  rcases toUpper_eq_self_or c with h | ⟨hupper, h⟩
  · rw [h]
  · exact (next_congr_of_isWordChar hupper h s).2

theorem mask_upper (s : Quoting) (t : Text) : s.mask t.upper = s.mask t := by
  induction t generalizing s with
  | nil => rfl
  | cons c t ih => rw [Text.upper_cons, mask, mask, next_toUpper, covers_toUpper, ih]

/-- Letter case does not matter to the state of quotes behind a text. -/
@[simp] theorem after_upper (s : Quoting) (t : Text) : s.after t.upper = s.after t := by
  induction t generalizing s with
  | nil => rfl
  | cons c t ih => rw [Text.upper_cons, after_cons, after_cons, next_toUpper, ih]

/-- Letter case does not matter to the quoted regions of a text. -/
theorem mask_congr_upper {t u : Text} (h : t.upper = u.upper) (s : Quoting) :
    s.mask t = s.mask u := by
  rw [← mask_upper, h, mask_upper]

end Quoting

/-- No letter is blank. -/
theorem isBlank_toUpper (c : Char) : isBlank c.toUpper = isBlank c := by
  rcases toUpper_eq_self_or c with h | ⟨hupper, h⟩
  · rw [h]
  · rw [isBlank_of_isWordChar hupper, isBlank_of_isWordChar h]

namespace Text

theorem utf8Size_toUpper (c : Char) : c.toUpper.utf8Size = c.utf8Size := by
  have hsize {b : Char} (hb : b.toNat ≤ 122) : b.utf8Size = 1 :=
    Char.utf8Size_eq_one_iff.2 (UInt32.le_iff_toNat_le.2 (hb.trans (by decide)))
  rcases toUpper_eq_self_or_isLetter c with h | ⟨⟨-, hupper⟩, -, hlower⟩
  · rw [h]
  · rw [hsize (hupper.trans (by decide)), hsize hlower]

theorem utf8Size_upper (t : Text) : t.upper.utf8Size = t.utf8Size := by
  induction t with
  | nil => rfl
  | cons c t ih => rw [upper_cons, utf8Size, utf8Size, utf8Size_toUpper, ih]

/-- Letter case does not matter to the length in bytes. -/
theorem utf8Size_congr_upper {t u : Text} (h : t.upper = u.upper) : t.utf8Size = u.utf8Size := by
  rw [← utf8Size_upper, h, utf8Size_upper]

end Text

end SqlLayout
