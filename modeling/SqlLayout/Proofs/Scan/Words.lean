import SqlLayout.Proofs.Text.Lexemes

/-!
# Keywords as whole words

A keyword is read at the start of a text by its letters, and looked up by the longest word that
stands there.  The two agree: a text starts with a keyword exactly if its first word spells it.

## Main results

* `isWordChar_toUpper` : letter case does not decide about word characters.
* `Keyword.ofWord?_eq_some_iff` : the words that spell a keyword.
* `Keyword.split?_word_append` : the cut behind a keyword, read off the first word.
* `Keyword.split?_eq_ite` : the cut behind a keyword at the start of any text.
-/

namespace SqlLayout

/-! ### Letter case -/

theorem isWordChar_of_isLetter {c : Char} (h : 65 ≤ c.toNat ∧ c.toNat ≤ 90 ∨
    97 ≤ c.toNat ∧ c.toNat ≤ 122) : isWordChar c = true := by
  have key : ∀ n ∈ List.range' 65 58, 65 ≤ n ∧ n ≤ 90 ∨ 97 ≤ n ∧ n ≤ 122 →
      CodeRange.covers wordRanges n = true := by
    decide +kernel
  exact key c.toNat (List.mem_range'_1.2 (by omega)) h

/-- Upper case changes nothing but small letters, and makes them capital ones. -/
theorem toUpper_eq_self_or_isLetter (c : Char) :
    c.toUpper = c ∨ (65 ≤ c.toUpper.toNat ∧ c.toUpper.toNat ≤ 90) ∧ 97 ≤ c.toNat ∧
      c.toNat ≤ 122 := by
  delta Char.toUpper
  split
  · rename_i h
    have hlow : 97 ≤ c.toNat ∧ c.toNat ≤ 122 := h
    refine Or.inr ⟨?_, hlow⟩
    change 65 ≤ (c.val + 4294967264).toNat ∧ (c.val + 4294967264).toNat ≤ 90
    have hsum : (c.val + 4294967264).toNat = c.toNat - 32 := by
      have hlow' : 97 ≤ c.val.toNat ∧ c.val.toNat ≤ 122 := hlow
      rw [UInt32.toNat_add]
      change (c.val.toNat + 4294967264) % 4294967296 = c.val.toNat - 32
      omega
    omega
  · exact Or.inl rfl

/-- Upper case changes nothing but letters, and leaves them letters. -/
theorem toUpper_eq_self_or (c : Char) :
    c.toUpper = c ∨ isWordChar c.toUpper = true ∧ isWordChar c = true :=
  (toUpper_eq_self_or_isLetter c).imp_right fun ⟨hupper, hlower⟩ =>
    ⟨isWordChar_of_isLetter (Or.inl hupper), isWordChar_of_isLetter (Or.inr hlower)⟩

/-- Letter case does not decide about word characters. -/
theorem isWordChar_toUpper (c : Char) : isWordChar c.toUpper = isWordChar c := by
  rcases toUpper_eq_self_or c with h | ⟨hupper, h⟩
  · rw [h]
  · rw [hupper, h]

namespace Keyword

theorem isWordChar_letters (k : Keyword) : ∀ c ∈ k.letters, isWordChar c = true := by
  have key : k.letters.all isWordChar = true := by cases k <;> decide
  exact List.all_eq_true.1 key

theorem isWordChar_of_upper_eq {k : Keyword} {word : Text} (h : word.upper = k.letters) :
    ∀ c ∈ word, isWordChar c = true := by
  intro c hc
  rw [← isWordChar_toUpper]
  exact k.isWordChar_letters _ (h ▸ List.mem_map_of_mem hc)

theorem ofWord?_letters (k : Keyword) : ofWord? k.letters = some k := by
  cases k <;> decide

theorem ofWord?_congr {word word' : Text} (h : word.upper = word'.upper) :
    ofWord? word = ofWord? word' := by
  unfold ofWord?
  congr 1
  funext k
  rw [decide_eq_decide, Text.EqIgnoringCase, Text.EqIgnoringCase, h]

/-- The words that spell a keyword. -/
theorem ofWord?_eq_some_iff {word : Text} {k : Keyword} :
    ofWord? word = some k ↔ word.upper = k.letters := by
  constructor
  · intro h
    rw [← k.upper_letters]
    exact (eqIgnoringCase_of_ofWord? h).symm
  · intro h
    rw [← k.upper_letters] at h
    rw [ofWord?_congr h, ofWord?_letters]

theorem takeWhile_append_of_continuesWord {word rest : Text}
    (hword : ∀ c ∈ word, isWordChar c = true) (hrest : continuesWord rest = false) :
    (word ++ rest).takeWhile isWordChar = word := by
  rw [List.takeWhile_append_of_pos hword]
  cases rest with
  | nil => simp
  | cons c rest => simp [show isWordChar c = false from hrest]

/-- The cut behind a keyword, read off the first word. -/
theorem split?_word_append {word rest : Text} (hword : ∀ c ∈ word, isWordChar c = true)
    (hrest : continuesWord rest = false) (k : Keyword) :
    k.split? (word ++ rest) = if ofWord? word = some k then some (word, rest) else none := by
  split
  · rename_i h
    exact split?_eq_some_iff.2 ⟨rfl, ofWord?_eq_some_iff.1 h, hrest⟩
  · rename_i h
    rw [Option.eq_none_iff_forall_ne_some]
    rintro ⟨spelled, rest'⟩ hcut
    obtain ⟨happend, hupper, hrest'⟩ := split?_eq_some_iff.1 hcut
    have hspelled : spelled = word := by
      rw [← takeWhile_append_of_continuesWord (isWordChar_of_upper_eq hupper) hrest', happend,
        takeWhile_append_of_continuesWord hword hrest]
    exact h (ofWord?_eq_some_iff.2 (hspelled ▸ hupper))

theorem continuesWord_dropWhile (t : Text) :
    continuesWord (t.dropWhile isWordChar) = false := by
  have hhead := List.head?_dropWhile_not isWordChar t
  cases hrest : t.dropWhile isWordChar with
  | nil => rfl
  | cons c rest => rwa [hrest] at hhead

/-- The cut behind a keyword at the start of any text: the longest run of word characters there is
looked up. -/
theorem split?_eq_ite (k : Keyword) (t : Text) :
    k.split? t =
      if ofWord? (t.takeWhile isWordChar) = some k then
        some (t.takeWhile isWordChar, t.dropWhile isWordChar)
      else none := by
  have hword : ∀ c ∈ t.takeWhile isWordChar, isWordChar c = true :=
    fun c hc => List.mem_takeWhile_imp hc
  have hcut := split?_word_append hword (continuesWord_dropWhile t) k
  rwa [List.takeWhile_append_dropWhile] at hcut

/-- No keyword stands at the start of a text that begins with no word character. -/
theorem split?_eq_none {t : Text} (h : continuesWord t = false) (k : Keyword) :
    k.split? t = none := by
  rw [← List.nil_append t, split?_word_append (List.forall_mem_nil _) h, if_neg]
  intro hnil
  cases k <;> cases ofWord?_eq_some_iff.1 hnil

end Keyword

end SqlLayout
