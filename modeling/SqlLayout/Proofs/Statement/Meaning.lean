import SqlLayout.Proofs.Text.LetterCase
import SqlLayout.Proofs.Text.WordRuns

/-!
# The meaning of clean statements

A clean statement is the trimmed raw statement, without one terminator and the blank characters in
front of it if it ends in one, and with its keywords in upper case.  Writing keywords in upper case
moves no character: what it does is said here position by position.

## Main definitions

* `Text.IsBodyOf` : a text without the terminator that it ends in.
* `Text.IsRaised` : one text is the other with its keywords in upper case.

## Main results

* `Text.isRaised_upperKeywords` : keywords are written in upper case, and nothing else is changed.
* `Statement.ofText_meaning` : what the clean form of a raw statement is.
-/

namespace SqlLayout

namespace Text

/-- The body of a trimmed text: the text itself, or what stands in front of its terminator and of
the blank characters before that. -/
def IsBodyOf (body t : Text) : Bool → Prop
  | false => body = t
  | true => (∃ gap : Text, gap.IsBlank ∧ t = body ++ gap ++ [terminator]) ∧
      ∀ c ∈ body.getLast?, isBlank c = false

/-- The second text is the first with its keywords in upper case.  Every other character is the same
at the same position, and quoted regions are where they were. -/
structure IsRaised (body sql : Text) : Prop where
  length : sql.length = body.length
  keyword : ∀ i, body.KeywordAt i → sql[i]? = body[i]?.map Char.toUpper
  other : ∀ i, ¬ body.KeywordAt i → sql[i]? = body[i]?
  size : sql.utf8Size = body.utf8Size
  mask : Quoting.outside.mask sql = Quoting.outside.mask body

/-- Keywords are written in upper case, and nothing else is changed. -/
theorem isRaised_upperKeywords (t : Text) : t.IsRaised t.upperKeywords where
  length := t.length_upperKeywords
  keyword _ := getElem?_upperKeywords_of_keywordAt
  other _ := getElem?_upperKeywords_of_not_keywordAt
  size := utf8Size_congr_upper t.upper_upperKeywords
  mask := Quoting.mask_congr_upper t.upper_upperKeywords .outside

end Text

namespace Statement

/-- The body of a raw statement, of which the clean form is made. -/
theorem exists_isBodyOf (raw : Text) :
    ∃ body : Text, body.IsBodyOf raw.trim (ofText raw).terminated ∧
      (ofText raw).sql = body.upperKeywords := by
  unfold ofText
  cases h : raw.trim.splitTerminator? with
  | none => exact ⟨raw.trim, rfl, rfl⟩
  | some body =>
    obtain ⟨gap, hgap, hbody⟩ := body.exists_trimEnd_append
    have htrim := Text.splitTerminator?_eq_some_iff.1 h
    rw [hbody] at htrim
    exact ⟨body.trimEnd, ⟨⟨gap, hgap, htrim⟩, body.isBlank_of_getLast?_trimEnd⟩, rfl⟩

theorem terminated_iff {raw : Text} :
    (ofText raw).terminated = true ↔ raw.trim.getLast? = some terminator := by
  unfold ofText Text.splitTerminator?
  by_cases h : raw.trim.getLast? = some terminator <;> simp [h]

/-- The clean form of a raw statement: it is terminated exactly if the trimmed statement ends in a
terminator, and its text is the body of the trimmed statement with keywords in upper case. -/
theorem ofText_meaning (raw : Text) :
    ((ofText raw).terminated = true ↔ raw.trim.getLast? = some terminator) ∧
      ∃ body : Text, body.IsBodyOf raw.trim (ofText raw).terminated ∧
        body.IsRaised (ofText raw).sql := by
  obtain ⟨body, hbody, hsql⟩ := exists_isBodyOf raw
  exact ⟨terminated_iff, body, hbody, hsql ▸ body.isRaised_upperKeywords⟩

/-- A keyword behind a quoted one and in front of a longer word. -/
theorem ofText_meaning_quoted_keyword :
    ∃ body : Text, body = "`in` In inn".toList ∧ body.KeywordAt 5 ∧
      body.IsRaised (ofText " `in` In inn\t".toList).sql ∧
      (ofText " `in` In inn\t".toList).sql[5]? = some 'I' ∧
      (ofText " `in` In inn\t".toList).sql[6]? = some 'N' := by
  obtain ⟨-, body, hbody, hraised⟩ := ofText_meaning " `in` In inn\t".toList
  have hfalse : (ofText " `in` In inn\t".toList).terminated = false := by decide +kernel
  rw [hfalse] at hbody
  have htrim : Text.trim " `in` In inn\t".toList = "`in` In inn".toList := by decide +kernel
  obtain rfl : body = "`in` In inn".toList := hbody.trans htrim
  have hspace (c : Char) (hc : some ' ' = some c) : isWordChar c = false :=
    Option.some.inj hc ▸ isWordChar_of_isBlank isBlank_space
  have hword : Text.IsFreeWord "`in` ".toList "In".toList " inn".toList :=
    ⟨by decide, Keyword.isWordChar_of_upper_eq (k := .in) rfl, by decide, hspace, hspace⟩
  have hkeyword (i : Nat) (hle : 5 ≤ i) (hlt : i < 7) :
      Text.KeywordAt "`in` In inn".toList i :=
    ⟨_, _, _, rfl, hword, ⟨.in, by decide, by decide⟩, hle, hlt⟩
  exact ⟨_, rfl, hkeyword 5 (by decide) (by decide), hraised,
    hraised.keyword 5 (hkeyword 5 (by decide) (by decide)),
    hraised.keyword 6 (hkeyword 6 (by decide) (by decide))⟩

end Statement

end SqlLayout
