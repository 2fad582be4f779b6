import SqlLayout.Proofs.Text.Folding

/-!
# Runs of word characters

A word of a text is a longest run of word characters outside of quotes.  These runs are the lexemes
that are words, so what is done to a text word by word can be told from what stands on the two sides
of a run.

## Main definitions

* `Text.IsFreeWord` : a longest run of word characters outside of quotes.
* `Text.KeywordAt` : a position inside such a run that spells a keyword.

## Main results

* `Lexeme.Tight.isFreeWord`, `Text.IsFreeWord.exists_tight` : free words are the lexemes that are
  words.
* `Text.getElem?_upperKeywords_of_keywordAt`, `Text.getElem?_upperKeywords_of_not_keywordAt` : what
  writing keywords in upper case does at each position of a text.
-/

namespace SqlLayout

namespace Text

/-- A longest run of word characters outside of quotes, between what stands on its two sides. -/
structure IsFreeWord (before word after : Text) : Prop where
  ne_nil : word ≠ []
  letters : ∀ c ∈ word, isWordChar c = true
  outside : Quoting.outside.after before = .outside
  left : ∀ c ∈ before.getLast?, isWordChar c = false
  right : ∀ c ∈ after.head?, isWordChar c = false

/-- A position of a text inside a longest run of word characters outside of quotes that is a keyword
in some mixture of ASCII cases. -/
def KeywordAt (t : Text) (i : Nat) : Prop :=
  ∃ before word after : Text, t = before ++ (word ++ after) ∧ IsFreeWord before word after ∧
    (∃ k ∈ Keyword.table, k.letters.EqIgnoringCase word) ∧
    before.length ≤ i ∧ i < before.length + word.length

end Text

/-! ### Free words are lexemes -/

namespace Lexeme

/-- No word ends right in front of a word that is a lexeme. -/
theorem Tight.getLast?_left {tail : Text} {L M : List Lexeme} {x : Lexeme}
    (h : Tight tail (L ++ x :: M)) (hx : x.chunk.isWord = true) :
    ∀ c ∈ (Text.ofLexemes L [] ++ x.gap).getLast?, isWordChar c = false := by
  intro c hc
  by_cases hgap : x.gap = []
  · rcases L.eq_nil_or_concat with rfl | ⟨L, y, rfl⟩
    · rw [hgap] at hc
      cases hc
    · have hclosed := h.closed_left (List.cons_ne_nil x M) y (by simp)
      rw [List.concat_eq_append, List.append_assoc, List.singleton_append] at h
      obtain ⟨-, hsound, -, hsep, -⟩ := h.right
      obtain ⟨t, d, htext, -, hword⟩ := hsound.exists_concat hclosed
      have hlast : (Text.ofLexemes (L.concat y) [] ++ x.gap).getLast? = some d := by
        simp [Text.ofLexemes, Lexeme.text, htext, hgap]
      rw [hlast] at hc
      rw [← Option.some.inj hc, hword, Bool.eq_false_iff]
      exact fun hy => hsep hy hx hgap
  · have hd := List.getLast?_eq_some_getLast hgap
    rw [List.getLast?_append, hd] at hc
    rw [← Option.some.inj hc]
    exact isWordChar_of_isBlank (h.right.1 _ (List.mem_of_getLast? hd))

/-- A lexeme that is a word is a free word. -/
theorem Tight.isFreeWord {tail : Text} {L M : List Lexeme} {gap letters : Text}
    (h : Tight tail (L ++ ⟨gap, .word letters⟩ :: M)) :
    Text.IsFreeWord (Text.ofLexemes L [] ++ gap) letters (Text.ofLexemes M tail) := by
  have hclosed := h.closed_left (List.cons_ne_nil _ M)
  obtain ⟨hgap, ⟨hne, hletters⟩, -, hsep, hM⟩ := h.right
  refine ⟨hne, hletters, ?_, h.getLast?_left rfl, fun c hc => ?_⟩
  · rw [Quoting.after_append, (Text.after_ofLexemes_eq_outside_iff h.left).2 hclosed]
    exact Text.after_isBlank hgap _ rfl
  · have hright := hsep.continuesWord hM rfl
    obtain ⟨t, ht⟩ := List.head?_eq_some_iff.1 hc
    rwa [ht] at hright

/-- The last word of a text that ends in no word character has a gap behind it. -/
theorem Tight.ne_nil_of_getLast? {tail : Text} {L : List Lexeme} (h : Tight tail L)
    (hlast : ∀ c ∈ (Text.ofLexemes L tail).getLast?, isWordChar c = false) :
    ∀ x ∈ L.getLast?, x.chunk.isWord = true → tail ≠ [] := by
  rintro x hx hword rfl
  obtain ⟨L, rfl⟩ := List.getLast?_eq_some_iff.1 hx
  have hsound : x.chunk.Sound := h.sound x (by simp)
  obtain ⟨t, c, htext, -, hc⟩ := hsound.exists_concat (hsound.closed_of_isWord hword)
  have hfalse := hlast c (by simp [Text.ofLexemes, Lexeme.text, htext])
  rw [hc, hword] at hfalse
  cases hfalse

end Lexeme

namespace Text

/-- A free word is a lexeme. -/
theorem IsFreeWord.exists_tight {before word after : Text} (h : IsFreeWord before word after) :
    ∃ L gap M tail, before = ofLexemes L gap ∧ after = ofLexemes M tail ∧
      Lexeme.Tight gap L ∧ Lexeme.Tight tail M ∧
      Lexeme.Tight tail (L ++ ⟨gap, .word word⟩ :: M) := by
  obtain ⟨L, gap, hL, rfl⟩ := Text.exists_tight before
  obtain ⟨M, tail, hM, rfl⟩ := Text.exists_tight after
  have hclosed := (after_ofLexemes_eq_outside_iff hL).1 h.outside
  have hsound : (Chunk.word word).Sound := ⟨h.ne_nil, h.letters⟩
  have hword : Lexeme.Tight tail (⟨[], .word word⟩ :: M) := by
    refine ⟨nofun, hsound, Or.inl (hsound.closed_of_isWord rfl), ?_, hM⟩
    cases M with
    | nil => trivial
    | cons y M =>
      rintro - hy hgap
      obtain ⟨c, t, htext, -, hc⟩ := hM.2.1.exists_cons
      have hfalse := h.right c (by simp [ofLexemes_cons, hgap, htext])
      rw [hc, hy] at hfalse
      cases hfalse
  have happend := hL.append hclosed hword (List.cons_ne_nil _ M) fun x hx hx' htail =>
    absurd htail (hL.ne_nil_of_getLast? h.left x hx hx')
  refine ⟨L, gap, M, tail, rfl, rfl, hL, hM, ?_⟩
  rwa [Lexeme.widen, List.append_nil] at happend

end Text

/-! ### Keywords in upper case, position by position -/

namespace Lexeme

/-- Only words that spell keywords are changed. -/
theorem fold_eq_self_or (x : Lexeme) :
    x.fold = x ∨ ∃ letters, x.chunk = .word letters ∧
      ∃ k : Keyword, k.letters.EqIgnoringCase letters := by
  obtain ⟨gap, chunk⟩ := x
  cases chunk with
  | word letters =>
    cases h : Keyword.ofWord? letters with
    | none => simp [fold, Chunk.folded, h]
    | some k => exact Or.inr ⟨letters, rfl, k, Keyword.eqIgnoringCase_of_ofWord? h⟩
  | _ => exact Or.inl rfl

theorem length_text_fold (x : Lexeme) : x.fold.text.length = x.text.length := by
  have hupper := congrArg List.length (Chunk.upper_foldedText x.chunk)
  rw [Text.length_upper, Text.length_upper, ← Chunk.text_folded] at hupper
  rw [text, text, List.length_append, List.length_append]
  exact congrArg (x.gap.length + ·) hupper

/-- Behind some lexemes, a character that belongs to no keyword stays as it is. -/
theorem Tight.getElem?_map_fold {tail : Text} {P L : List Lexeme} (h : Tight tail (P ++ L))
    {i : Nat} (hi : ¬ (Text.ofLexemes (P ++ L) tail).KeywordAt ((Text.ofLexemes P []).length + i)) :
    (Text.ofLexemes (L.map fold) tail)[i]? = (Text.ofLexemes L tail)[i]? := by
  induction L generalizing P i with
  | nil => rfl
  | cons x L ih =>
    have hsplit (M : List Lexeme) (y : Lexeme) :
        Text.ofLexemes (y :: M) tail = y.text ++ Text.ofLexemes M tail := by
      simp [Text.ofLexemes]
    rw [List.map_cons, hsplit, hsplit]
    by_cases hx : i < x.text.length
    · -- the character is one of the first lexeme
      rw [List.getElem?_append_left (by rwa [length_text_fold]), List.getElem?_append_left hx]
      rcases x.fold_eq_self_or with hfold | ⟨letters, hchunk, k, hk⟩
      · rw [hfold]
      · obtain ⟨gap, chunk⟩ := x
        obtain rfl : chunk = .word letters := hchunk
        have hlength : Lexeme.text ⟨gap, .word letters⟩ = gap ++ letters := rfl
        rw [hlength, List.length_append] at hx
        have hgap : i < gap.length := by
          by_contra hge
          refine hi ⟨_, _, _, ?_, h.isFreeWord, ⟨k, k.mem_table, hk⟩, ?_, ?_⟩
          · simp [Text.ofLexemes, text, Chunk.text]
          · rw [List.length_append]
            omega
          · rw [List.length_append]
            omega
        exact (List.getElem?_append_left hgap).trans (List.getElem?_append_left hgap).symm
    · rw [List.getElem?_append_right (by rw [length_text_fold]; omega), length_text_fold,
        List.getElem?_append_right (by omega)]
      have happend : P ++ x :: L = P ++ [x] ++ L := by simp
      refine ih (P := P ++ [x]) (happend ▸ h) ?_
      have hlength : (Text.ofLexemes (P ++ [x]) []).length + (i - x.text.length) =
          (Text.ofLexemes P []).length + i := by
        simp only [Text.ofLexemes, List.flatMap_append, List.flatMap_singleton, List.append_nil,
          List.length_append]
        omega
      rwa [hlength, ← happend]

end Lexeme

namespace Text

theorem length_upperKeywords (t : Text) : t.upperKeywords.length = t.length := by
  have hlength := congrArg List.length t.upper_upperKeywords
  rwa [length_upper, length_upper] at hlength

/-- A free word is written in upper case if it is a keyword, whatever stands on its two sides. -/
theorem IsFreeWord.upperKeywords_append {before word after : Text}
    (h : IsFreeWord before word after) :
    (before ++ (word ++ after)).upperKeywords =
      before.upperKeywords ++ ((Chunk.word word).foldedText ++ after.upperKeywords) := by
  obtain ⟨L, gap, M, tail, rfl, rfl, hL, hM, htight⟩ := h.exists_tight
  have hsplit (L M : List Lexeme) (gap tail letters : Text) :
      ofLexemes (L ++ ⟨gap, .word letters⟩ :: M) tail =
        ofLexemes L gap ++ (letters ++ ofLexemes M tail) := by
    simp [ofLexemes, Lexeme.text, Chunk.text]
  rw [← hsplit, upperKeywords_ofLexemes htight, upperKeywords_ofLexemes hL,
    upperKeywords_ofLexemes hM, List.map_append, List.map_cons]
  exact hsplit _ _ _ _ _

/-- A keyword is written in upper case. -/
theorem getElem?_upperKeywords_of_keywordAt {t : Text} {i : Nat} (h : t.KeywordAt i) :
    t.upperKeywords[i]? = t[i]?.map Char.toUpper := by
  obtain ⟨before, word, after, rfl, hfree, ⟨k, -, hk⟩, hle, hlt⟩ := h
  have hword : Keyword.ofWord? word = some k := by
    rw [Keyword.ofWord?_eq_some_iff, ← k.upper_letters]
    exact hk.symm
  have hfolded : (Chunk.word word).foldedText = word.upper := by
    rw [Chunk.foldedText, hword]
    exact (Keyword.ofWord?_eq_some_iff.1 hword).symm
  have hbefore := before.length_upperKeywords
  rw [hfree.upperKeywords_append, hfolded, List.getElem?_append_right (by omega), hbefore,
    List.getElem?_append_right hle, List.getElem?_append_left (by rw [length_upper]; omega),
    List.getElem?_append_left (by omega), upper, List.getElem?_map]

/-- What belongs to no keyword stays as it is. -/
theorem getElem?_upperKeywords_of_not_keywordAt {t : Text} {i : Nat} (h : ¬ t.KeywordAt i) :
    t.upperKeywords[i]? = t[i]? := by
  obtain ⟨L, tail, hL, rfl⟩ := exists_tight t
  rw [upperKeywords_ofLexemes hL]
  refine Lexeme.Tight.getElem?_map_fold (P := []) hL ?_
  rwa [ofLexemes_nil, List.length_nil, Nat.zero_add]

end Text

end SqlLayout
