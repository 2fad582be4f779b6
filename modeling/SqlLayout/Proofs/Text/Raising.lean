import SqlLayout.Proofs.Scan.Hits
import SqlLayout.Proofs.Text.LetterCase
import SqlLayout.Proofs.Text.WordRuns

/-!
# Keywords in upper case, part by part

Whether a word is a keyword is decided by the word and by what stands directly at its two sides.  So
the blank characters at the ends of a text, and the terminators there, can be taken off before or
after its keywords are written in upper case, even if they stand in a quoted region that is left
open.

## Main results

* `Text.upperKeywords_append` : keywords in front of a text that has no word character.
* `Text.trim_upperKeywords` : writing keywords in upper case commutes with trimming.
* `Text.upperKeywords_congr` : texts that differ in the case of their keywords only.
-/

namespace SqlLayout

namespace Text

/-! ### Trimmed texts -/

/-- Trimming takes off blank characters, and no more. -/
theorem trim_append {front t behind : Text} (hfront : front.IsBlank) (hbehind : behind.IsBlank)
    (ht : t = [] ∨ t.IsSolid) : (front ++ (t ++ behind)).trim = t := by
  rcases ht with rfl | ⟨⟨c, u, hstart, hc⟩, v, d, hend, hd⟩
  · rw [List.nil_append, trim, Lexeme.trimStart_eq_nil (hfront.append hbehind), trimEnd_nil]
  · have hstarts : startsBlank (t ++ behind) = false := by
      rw [hstart]
      exact hc
    rw [trim, (Lexeme.takeWhile_gap_append hfront hstarts).2, hend, trimEnd_solid_end hd hbehind]

@[simp] theorem trim_trim (t : Text) : t.trim.trim = t.trim := by
  have htrim := trim_append isBlank_nil isBlank_nil t.trim_eq_nil_or_isSolid
  rwa [List.nil_append, List.append_nil] at htrim

theorem trim_append_of_isBlank (t : Text) {gap : Text} (hgap : gap.IsBlank) :
    (t ++ gap).trim = t.trim := by
  obtain ⟨front, behind, hfront, hbehind, heq⟩ := t.exists_trim_append
  have htrim := trim_append hfront (hbehind.append hgap) t.trim_eq_nil_or_isSolid
  rwa [← List.append_assoc t.trim, ← List.append_assoc front, ← heq] at htrim

/-- Letter case does not matter to whether a text begins and ends with blank characters. -/
theorem IsSolid.congr_upper {t u : Text} (ht : t.IsSolid) (h : t.upper = u.upper) : u.IsSolid := by
  obtain ⟨⟨c, v, rfl, hc⟩, w, d, hend, hd⟩ := ht
  have hfirst := h.symm
  rw [upper_cons] at hfirst
  obtain ⟨c', v', rfl, hc', -⟩ := List.map_eq_cons_iff.1 hfirst
  have hlast := h.symm
  rw [hend, upper_append] at hlast
  obtain ⟨w', u', hsplit, -, hu'⟩ := List.map_eq_append_iff.1 hlast
  obtain ⟨d', rfl, hd'⟩ := List.map_eq_singleton_iff.1 hu'
  refine ⟨⟨c', v', rfl, ?_⟩, w', d', hsplit, ?_⟩
  · rw [← isBlank_toUpper, hc', isBlank_toUpper, hc]
  · rw [← isBlank_toUpper, hd', isBlank_toUpper, hd]

/-! ### Free words of a part -/

/-- A word that stands in front of other characters than word characters ends in front of them. -/
theorem exists_of_append_eq {t u before word after : Text} (hu : ∀ c ∈ u, isWordChar c = false)
    (hne : word ≠ []) (hword : ∀ c ∈ word, isWordChar c = true)
    (h : t ++ u = before ++ (word ++ after)) :
    ∃ rest, after = rest ++ u ∧ t = before ++ (word ++ rest) := by
  rw [← List.append_assoc] at h
  rcases List.append_eq_append_iff.1 h with ⟨beyond, hfront, hbehind⟩ | ⟨rest, hfront, hbehind⟩
  · -- what is left of the word would have a word character and none
    rcases beyond.eq_nil_or_concat with rfl | ⟨init, c, rfl⟩
    · rw [List.append_nil] at hfront
      exact ⟨[], by simpa using hbehind.symm, by simp [hfront]⟩
    · obtain ⟨w, d, rfl⟩ : ∃ w d, word = w ++ [d] :=
        ⟨_, _, (List.dropLast_concat_getLast hne).symm⟩
      rw [List.concat_eq_append, ← List.append_assoc, ← List.append_assoc] at hfront
      obtain ⟨-, hlast⟩ := List.append_inj' hfront rfl
      obtain rfl : d = c := List.head_eq_of_cons_eq hlast
      have htrue := hword d (by simp)
      rw [hu d (by simp [hbehind])] at htrue
      cases htrue
  · exact ⟨rest, hbehind, by rw [hfront, List.append_assoc]⟩

theorem KeywordAt.lt_length {t : Text} {i : Nat} (h : t.KeywordAt i) : i < t.length := by
  obtain ⟨before, word, after, rfl, -, -, -, hlt⟩ := h
  simp only [List.length_append]
  omega

/-- What stands behind a text does not matter to its keywords, if it has no word character. -/
theorem keywordAt_append_iff {t u : Text} (hu : ∀ c ∈ u, isWordChar c = false) {i : Nat} :
    (t ++ u).KeywordAt i ↔ t.KeywordAt i := by
  constructor
  · rintro ⟨before, word, after, heq, hfree, hkeyword, hle, hlt⟩
    obtain ⟨rest, rfl, ht⟩ := exists_of_append_eq hu hfree.ne_nil hfree.letters heq
    refine ⟨before, word, rest, ht, { hfree with right := fun c hc => hfree.right c ?_ }, hkeyword,
      hle, hlt⟩
    rw [List.head?_append, Option.mem_def.1 hc]
    rfl
  · rintro ⟨before, word, after, rfl, hfree, hkeyword, hle, hlt⟩
    refine ⟨before, word, after ++ u, by simp, { hfree with right := fun c hc => ?_ }, hkeyword,
      hle, hlt⟩
    cases after with
    | nil => exact hu c (List.mem_of_head? hc)
    | cons d after => exact hfree.right c hc

/-! ### Keywords in upper case -/

/-- Keywords in front of a text that has no word character. -/
theorem upperKeywords_append (t : Text) {u : Text} (hu : ∀ c ∈ u, isWordChar c = false) :
    (t ++ u).upperKeywords = t.upperKeywords ++ u := by
  have hlength := t.length_upperKeywords
  refine List.ext_getElem? fun i => ?_
  by_cases hkeyword : t.KeywordAt i
  · have hi := hkeyword.lt_length
    rw [getElem?_upperKeywords_of_keywordAt ((keywordAt_append_iff hu).2 hkeyword),
      List.getElem?_append_left hi, List.getElem?_append_left (by omega),
      getElem?_upperKeywords_of_keywordAt hkeyword]
  · rw [getElem?_upperKeywords_of_not_keywordAt (mt (keywordAt_append_iff hu).1 hkeyword)]
    by_cases hi : i < t.length
    · rw [List.getElem?_append_left hi, List.getElem?_append_left (by omega),
        getElem?_upperKeywords_of_not_keywordAt hkeyword]
    · rw [List.getElem?_append_right (by omega), List.getElem?_append_right (by omega), hlength]

/-- Keywords behind blank characters. -/
theorem upperKeywords_gap_append {gap : Text} (hgap : gap.IsBlank) (t : Text) :
    (gap ++ t).upperKeywords = gap ++ t.upperKeywords := by
  have hnil : upperKeywords ([] : Text) = [] := rfl
  obtain ⟨L, tail, hL, rfl⟩ := exists_tight t
  cases L with
  | nil =>
    have hword {blank : Text} (h : blank.IsBlank) : blank.upperKeywords = blank := by
      have hchars := upperKeywords_append [] fun c hc => isWordChar_of_isBlank (h c hc)
      rwa [List.nil_append, hnil, List.nil_append] at hchars
    rw [ofLexemes_nil, hword (hgap.append hL.isBlank_tail), hword hL.isBlank_tail]
  | cons x L =>
    have hne := List.cons_ne_nil x L
    rw [← Lexeme.ofLexemes_widen _ _ hne, upperKeywords_ofLexemes (hL.widen hgap),
      upperKeywords_ofLexemes hL]
    exact Lexeme.ofLexemes_widen gap tail (List.cons_ne_nil x.fold (L.map Lexeme.fold))

@[simp] theorem upperKeywords_upperKeywords (t : Text) :
    t.upperKeywords.upperKeywords = t.upperKeywords := by
  obtain ⟨L, tail, hL, rfl⟩ := exists_tight t
  rw [upperKeywords_ofLexemes hL]
  refine upperKeywords_of_folded hL.map_fold fun x hx => ?_
  obtain ⟨y, -, rfl⟩ := List.mem_map.1 hx
  exact y.fold_fold

/-- Writing keywords in upper case commutes with trimming. -/
theorem trim_upperKeywords (t : Text) : t.upperKeywords.trim = t.trim.upperKeywords := by
  obtain ⟨front, behind, hfront, hbehind, heq⟩ := t.exists_trim_append
  have hsolid : t.trim.upperKeywords = [] ∨ t.trim.upperKeywords.IsSolid := by
    refine t.trim_eq_nil_or_isSolid.imp (fun hnil => ?_) fun hsolid =>
      hsolid.congr_upper t.trim.upper_upperKeywords.symm
    rw [hnil, upperKeywords_nil]
  have hupper : t.upperKeywords = front ++ (t.trim.upperKeywords ++ behind) := by
    have hall := upperKeywords_gap_append hfront (t.trim ++ behind)
    rwa [← heq, upperKeywords_append _ fun c hc => isWordChar_of_isBlank (hbehind c hc)] at hall
  rw [hupper, trim_append hfront hbehind hsolid]

/-! ### Letter case of keywords -/

theorem length_congr_upper {t u : Text} (h : t.upper = u.upper) : t.length = u.length := by
  rw [← length_upper, h, length_upper]

/-- Letter case does not matter to whether a character is one of a word. -/
theorem isWordChar_of_mem_congr {o o' : Option Char} (h : o'.map Char.toUpper = o.map Char.toUpper)
    (hnone : ∀ c ∈ o, isWordChar c = false) : ∀ c ∈ o', isWordChar c = false := by
  rintro c rfl
  obtain ⟨d, rfl, hd⟩ := Option.map_eq_some_iff.1 h.symm
  rw [← isWordChar_toUpper, ← hd, isWordChar_toUpper]
  exact hnone d rfl

/-- Letter case does not matter to whether a word is free. -/
theorem IsFreeWord.congr_upper {before word after before' word' after' : Text}
    (h : IsFreeWord before word after) (hbefore : upper before' = before.upper)
    (hword : upper word' = word.upper) (hafter : upper after' = after.upper) :
    IsFreeWord before' word' after' where
  ne_nil := by
    rintro rfl
    exact h.ne_nil (List.length_eq_zero_iff.1 (length_congr_upper hword).symm)
  letters c hc := by
    have hmem : c.toUpper ∈ upper word' := List.mem_map_of_mem hc
    rw [hword] at hmem
    obtain ⟨d, hd, heq⟩ := List.mem_map.1 hmem
    rw [← isWordChar_toUpper, ← heq, isWordChar_toUpper]
    exact h.letters d hd
  outside := by rw [← Quoting.after_upper, hbefore, Quoting.after_upper, h.outside]
  left := by
    refine isWordChar_of_mem_congr ?_ h.left
    rw [← List.getLast?_map, ← List.getLast?_map]
    exact congrArg List.getLast? hbefore
  right := by
    refine isWordChar_of_mem_congr ?_ h.right
    rw [← List.head?_map, ← List.head?_map]
    exact congrArg List.head? hafter

/-- Letter case does not matter to where the keywords of a text stand. -/
theorem KeywordAt.congr_upper {t u : Text} {i : Nat} (ht : t.KeywordAt i)
    (h : t.upper = u.upper) : u.KeywordAt i := by
  obtain ⟨before, word, after, rfl, hfree, ⟨k, hk, hkeyword⟩, hle, hlt⟩ := ht
  rw [upper_append, upper_append] at h
  obtain ⟨before', rest, rfl, hbefore, hrest⟩ := List.map_eq_append_iff.1 h.symm
  obtain ⟨word', after', rfl, hword, hafter⟩ := List.map_eq_append_iff.1 hrest
  refine ⟨before', word', after', rfl, hfree.congr_upper hbefore hword hafter,
    ⟨k, hk, hkeyword.trans hword.symm⟩, ?_, ?_⟩
  · rwa [length_congr_upper hbefore]
  · rwa [length_congr_upper hbefore, length_congr_upper hword]

/-- Texts that differ only in the letter case of their keywords are the same with keywords in upper
case. -/
theorem upperKeywords_congr {t u : Text} (h : t.upper = u.upper)
    (hother : ∀ i, ¬ t.KeywordAt i → t[i]? = u[i]?) : t.upperKeywords = u.upperKeywords := by
  refine List.ext_getElem? fun i => ?_
  by_cases hkeyword : t.KeywordAt i
  · have hi := congrArg (·[i]?) h
    simp only [upper, List.getElem?_map] at hi
    rw [getElem?_upperKeywords_of_keywordAt hkeyword, hi,
      getElem?_upperKeywords_of_keywordAt (hkeyword.congr_upper h)]
  · rw [getElem?_upperKeywords_of_not_keywordAt hkeyword, hother i hkeyword,
      getElem?_upperKeywords_of_not_keywordAt fun hu => hkeyword (hu.congr_upper h.symm)]

end Text

end SqlLayout
