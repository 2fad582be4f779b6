import SqlLayout.Layout.Page
import SqlLayout.Proofs.Scan.Caseless
import SqlLayout.Proofs.Statement.Passes

/-!
# The spelling of statements

Keywords may be written in any mixture of ASCII cases.  What a text is made of does not depend on
the case of any of its letters; these are copied to free text, but decide about nothing.  Letters of
keywords are not even copied, so statements that differ in these only are the same once they are
clean, and have the same layout.

## Main results

* `Statement.ofText_congr_upper` : statements that differ in the letter case of their keywords.
* `letter_case_decides_nothing` : what texts that differ in letter case have in common.
-/

namespace SqlLayout

/-- Statements that differ only in the letter case of their keywords have the same clean form. -/
theorem Statement.ofText_congr_upper {t u : Text} (h : t.upper = u.upper)
    (hother : ∀ i, ¬ t.KeywordAt i → t[i]? = u[i]?) : ofText t = ofText u := by
  rw [← ofText_upperKeywords, Text.upperKeywords_congr h hother, ofText_upperKeywords]

/-- Texts that differ at most in the case of ASCII letters have the same tokens, up to the case of
letters in free text.  If they differ at most in letters of keywords, they have the same clean form
and the same layout. -/
theorem letter_case_decides_nothing {t u : Text} (h : t.EqIgnoringCase u) :
    List.Forall₂ Token.EqIgnoringCase t.tokens u.tokens ∧
      ((∀ i, ¬ t.KeywordAt i → t[i]? = u[i]?) →
        Statement.ofText t = Statement.ofText u ∧ ∀ i : Indent, reformat i t = reformat i u) := by
  refine ⟨h.tokens, fun hother => ?_⟩
  have hclean := Statement.ofText_congr_upper h hother
  exact ⟨hclean, fun i => by rw [reformat, hclean, reformat]⟩

/-- A keyword in two spellings, in front of the same letters in quotes. -/
theorem letter_case_decides_nothing_in :
    List.Forall₂ Token.EqIgnoringCase (Text.tokens "a In 'In'".toList)
        (Text.tokens "a iN 'In'".toList) ∧
      reformat .usual "a In 'In'".toList = reformat .usual "a iN 'In'".toList := by
  obtain ⟨htokens, hlayout⟩ :=
    letter_case_decides_nothing (t := "a In 'In'".toList) (u := "a iN 'In'".toList) (by decide)
  refine ⟨htokens, (hlayout fun i hi => ?_).2 .usual⟩
  have hspace (c : Char) (hc : some ' ' = some c) : isWordChar c = false :=
    Option.some.inj hc ▸ isWordChar_of_isBlank isBlank_space
  have hword : Text.IsFreeWord "a ".toList "In".toList " 'In'".toList :=
    ⟨by decide, Keyword.isWordChar_of_upper_eq (k := .in) rfl, by decide, hspace, hspace⟩
  have hkeyword : ¬ (2 ≤ i ∧ i < 4) := fun ⟨hle, hlt⟩ =>
    hi ⟨_, _, _, rfl, hword, ⟨.in, by decide, by decide⟩, hle, hlt⟩
  have hsame : ∀ j < 9, ¬ (2 ≤ j ∧ j < 4) →
      "a In 'In'".toList[j]? = "a iN 'In'".toList[j]? := by
    decide
  by_cases hlt : i < 9
  · exact hsame i hlt hkeyword
  · have hend : 9 ≤ i := Nat.not_lt.1 hlt
    rw [List.getElem?_eq_none (l := "a In 'In'".toList) hend,
      List.getElem?_eq_none (l := "a iN 'In'".toList) hend]

end SqlLayout
