import SqlLayout.Proofs.Scan.Words
import SqlLayout.Proofs.Text.Ends
import SqlLayout.Statement

/-!
# The lexemes of clean statements

Writing keywords in upper case changes words one by one, and leaves gaps and all other chunks as
they are.  So a clean statement is a list of lexemes with nothing behind the last of them, in which
each keyword stands in upper case.

## Main definitions

* `Chunk.folded`, `Lexeme.fold` : a chunk, or a lexeme, with its keyword in upper case.
* `Lexeme.Clean` : the lexemes of a clean statement.

## Main results

* `Text.upperKeywords_ofLexemes` : keywords are written in upper case lexeme by lexeme.
* `Text.getLast?_upperKeywords_ne` : writing keywords in upper case makes no terminator.
* `Statement.exists_clean` : the lexemes of a clean statement are clean.
-/

namespace SqlLayout

namespace Chunk

/-- A chunk with its letters in upper case if it spells a keyword. -/
def folded : Chunk → Chunk
  | word letters => word (((Keyword.ofWord? letters).map Keyword.letters).getD letters)
  | chunk => chunk

theorem text_folded (chunk : Chunk) : chunk.folded.text = chunk.foldedText := by
  cases chunk <;> rfl

@[simp] theorem isWord_folded (chunk : Chunk) : chunk.folded.isWord = chunk.isWord := by
  cases chunk <;> rfl

@[simp] theorem folded_folded (chunk : Chunk) : chunk.folded.folded = chunk.folded := by
  cases chunk with
  | word letters =>
    cases h : Keyword.ofWord? letters with
    | none => simp [folded, h]
    | some k => simp [folded, h, Keyword.ofWord?_letters]
  | _ => rfl

theorem Sound.folded {chunk : Chunk} (h : chunk.Sound) : chunk.folded.Sound := by
  cases chunk with
  | word letters =>
    cases hk : Keyword.ofWord? letters with
    | none => simpa [Chunk.folded, hk] using h
    | some k =>
      have hne : k.letters ≠ [] := by cases k <;> decide
      have heq : (word letters).folded = word k.letters := by simp [Chunk.folded, hk]
      rw [heq]
      exact ⟨hne, k.isWordChar_letters⟩
  | _ => exact h

theorem Sound.closed_folded {chunk : Chunk} (h : chunk.Sound) (hclosed : chunk.Closed) :
    chunk.folded.Closed := by
  rcases h.folded.closed_or_quoted with hc | ⟨region, heq⟩
  · exact hc
  · cases chunk with
    | word letters => cases heq
    | _ => exact hclosed

end Chunk

namespace Lexeme

/-- A lexeme with its letters in upper case if it spells a keyword. -/
def fold (x : Lexeme) : Lexeme := ⟨x.gap, x.chunk.folded⟩

@[simp] theorem fold_fold (x : Lexeme) : x.fold.fold = x.fold := by
  simp [fold]

theorem map_fold_map_plain (L : List Lexeme) : (L.map plain).map fold = (L.map fold).map plain := by
  simp [fold, plain]

theorem setOff_map_fold (L : List Lexeme) : setOff (L.map fold) = (setOff L).map fold := by
  cases L with
  | nil => rfl
  | cons x L => simp [setOff, fold, plain]

theorem Tight.map_fold {tail : Text} {L : List Lexeme} (h : Tight tail L) :
    Tight tail (L.map fold) := by
  refine h.map fun x hgap hsound => ?_
  exact ⟨hgap, id, hsound.folded, hsound.closed_folded, x.chunk.isWord_folded⟩

/-- The lexemes of a clean statement: the last one ends in no blank character, and keywords are in
upper case. -/
structure Clean (L : List Lexeme) : Prop where
  tight : Tight [] L
  finished : Finished L
  folded : ∀ x ∈ L, x.fold = x

theorem Clean.right {L M : List Lexeme} (h : Clean (L ++ M)) : Clean M :=
  ⟨h.tight.right, h.finished.right, fun x hx => h.folded x (List.mem_append_right L hx)⟩

end Lexeme

namespace Text

/-- Keywords are written in upper case lexeme by lexeme. -/
theorem upperKeywords_ofLexemes {tail : Text} {L : List Lexeme} (h : Lexeme.Tight tail L) :
    (ofLexemes L tail).upperKeywords = ofLexemes (L.map Lexeme.fold) tail := by
  have hgap (gap : Text) : (Chunk.ofGap gap).flatMap Chunk.foldedText = gap := by
    cases gap <;> simp [Chunk.ofGap, Chunk.foldedText, Chunk.text]
  rw [upperKeywords, h.chunks_ofLexemes, List.flatMap_append, hgap]
  clear h
  induction L with
  | nil => rfl
  | cons x L ih =>
    rw [List.flatMap_cons, List.flatMap_append, List.append_assoc, ih, List.map_cons,
      ofLexemes_cons, Lexeme.chunks, List.flatMap_append, hgap, List.flatMap_singleton,
      ← Chunk.text_folded, List.append_assoc]
    rfl

/-- Keywords in upper case stay as they are. -/
theorem upperKeywords_of_folded {tail : Text} {L : List Lexeme} (h : Lexeme.Tight tail L)
    (hfolded : ∀ x ∈ L, x.fold = x) : (ofLexemes L tail).upperKeywords = ofLexemes L tail := by
  rw [upperKeywords_ofLexemes h, List.map_congr_left hfolded, List.map_id']

/-! ### Trimmed texts -/

theorem startsBlank_trimStart (t : Text) : t.trimStart.startsBlank = false := by
  cases h : t.trimStart with
  | nil => rfl
  | cons c u =>
    have hdrop : t.dropWhile isBlank = c :: u := h
    have hhead := List.head?_dropWhile_not isBlank t
    rwa [hdrop] at hhead

theorem trimEnd_eq_nil_or_isSolid {t : Text} (h : t.startsBlank = false) :
    t.trimEnd = [] ∨ t.trimEnd.IsSolid := by
  rcases t.exists_solid_end with hblank | ⟨u, c, gap, rfl, hc, hgap⟩
  · exact Or.inl (trimEnd_of_isBlank hblank)
  · rw [trimEnd_solid_end hc hgap]
    refine Or.inr ⟨?_, u, c, rfl, hc⟩
    cases u with
    | nil => exact ⟨c, [], rfl, hc⟩
    | cons d u => exact ⟨d, u ++ [c], rfl, h⟩

/-- A trimmed text is empty, or it begins and ends with a character that is not blank. -/
theorem trim_eq_nil_or_isSolid (t : Text) : t.trim = [] ∨ t.trim.IsSolid :=
  trimEnd_eq_nil_or_isSolid t.startsBlank_trimStart

theorem exists_trimEnd_append (t : Text) : ∃ gap : Text, gap.IsBlank ∧ t = t.trimEnd ++ gap := by
  rcases t.exists_solid_end with hblank | ⟨u, c, gap, rfl, hc, hgap⟩
  · exact ⟨t, hblank, by rw [trimEnd_of_isBlank hblank, List.nil_append]⟩
  · exact ⟨gap, hgap, by rw [trimEnd_solid_end hc hgap]⟩

theorem exists_trim_append (t : Text) :
    ∃ front behind : Text, front.IsBlank ∧ behind.IsBlank ∧ t = front ++ (t.trim ++ behind) := by
  obtain ⟨behind, hbehind, heq⟩ := t.trimStart.exists_trimEnd_append
  refine ⟨t.takeWhile isBlank, behind, t.isBlank_takeWhile, hbehind, ?_⟩
  rw [trim, ← heq, takeWhile_append_trimStart]

/-- What a solid text says about its lexemes. -/
theorem IsSolid.exists_lexemes {t : Text} (h : t.IsSolid) :
    ∃ L, t = ofLexemes L [] ∧ Lexeme.Tight [] L ∧ Lexeme.Finished L := by
  obtain ⟨L, tail, hL, rfl⟩ := exists_tight t
  obtain ⟨-, u, c, hend, hc⟩ := h
  have hblank : tail.IsBlank := by
    rw [← List.append_nil L] at hL
    exact hL.right
  -- taking the blank characters off the end takes nothing off
  have htrim : (ofLexemes L []).trimEnd = ofLexemes L [] ++ tail := by
    have hself : (ofLexemes L tail).trimEnd = ofLexemes L tail := by
      rw [hend, trimEnd_concat_of_not_blank hc]
    have hsplit : ofLexemes L tail = ofLexemes L [] ++ tail := by simp [ofLexemes]
    rwa [hsplit, trimEnd_append_of_isBlank _ hblank] at hself
  obtain ⟨gap, -, hgap⟩ := exists_trimEnd_append (ofLexemes L [])
  rw [htrim, List.append_assoc, List.self_eq_append_right] at hgap
  obtain ⟨rfl, rfl⟩ := List.append_eq_nil_iff.1 hgap
  rw [List.append_nil] at htrim
  refine ⟨L, rfl, hL, fun z hz => ?_⟩
  obtain ⟨M, rfl⟩ := List.getLast?_eq_some_iff.1 hz
  have hz : z.chunk.Sound := hL.sound z (by simp)
  have hsplit : ofLexemes (M ++ [z]) [] = ofLexemes M [] ++ z.gap ++ z.chunk.text := by
    simp [ofLexemes, Lexeme.text]
  rw [hsplit, trimEnd_append hz.not_isBlank_text] at htrim
  exact List.append_cancel_left htrim

end Text

/-! ### The ends of statements -/

/-- No letter has the terminator as its upper case. -/
theorem eq_terminator_of_toUpper {c : Char} (h : c.toUpper = terminator) : c = terminator := by
  rcases toUpper_eq_self_or c with hself | ⟨hupper, -⟩
  · rwa [hself] at h
  · rw [h] at hupper
    exact absurd hupper (by decide)

/-- Writing keywords in upper case makes no terminator. -/
theorem Text.getLast?_upperKeywords_ne {t : Text} (h : t.getLast? ≠ some terminator) :
    t.upperKeywords.getLast? ≠ some terminator := by
  intro hlast
  have hupper : t.upper.getLast? = some terminator := by
    rw [← upper_upperKeywords, upper, List.getLast?_map, hlast]
    rfl
  rw [upper, List.getLast?_map, Option.map_eq_some_iff] at hupper
  obtain ⟨c, hc, hcupper⟩ := hupper
  rw [eq_terminator_of_toUpper hcupper] at hc
  exact h hc

/-! ### Clean statements -/

namespace Lexeme

theorem clean_nil : Clean [] := ⟨nofun, nofun, nofun⟩

/-- Lexemes are clean if keywords are written in upper case. -/
theorem clean_map_fold {L : List Lexeme} (h : Tight [] L) (hfinished : Finished L) :
    Clean (L.map fold) := by
  refine ⟨h.map_fold, ?_, ?_⟩
  · intro x hx
    rw [List.getLast?_map] at hx
    obtain ⟨y, hy, rfl⟩ := Option.map_eq_some_iff.1 hx
    have hsound := h.sound y (List.mem_of_getLast? hy)
    rcases hsound.folded.closed_or_quoted with hclosed | ⟨region, heq⟩
    · obtain ⟨t, c, htext, hc, -⟩ := hsound.folded.exists_concat hclosed
      rw [fold, htext, Text.trimEnd_concat_of_not_blank hc]
    · have hsame : y.fold = y := by
        obtain ⟨gap, chunk⟩ := y
        cases chunk with
        | word letters => cases heq
        | _ => rfl
      rw [hsame]
      exact hfinished y hy
  · intro x hx
    obtain ⟨y, -, rfl⟩ := List.mem_map.1 hx
    exact y.fold_fold

end Lexeme

theorem Text.exists_clean {t : Text} (h : t = [] ∨ t.IsSolid) :
    ∃ L, Lexeme.Clean L ∧ t.upperKeywords = ofLexemes L [] := by
  rcases h with rfl | h
  · exact ⟨[], Lexeme.clean_nil, rfl⟩
  · obtain ⟨L, rfl, hL, hfinished⟩ := h.exists_lexemes
    exact ⟨L.map Lexeme.fold, Lexeme.clean_map_fold hL hfinished, upperKeywords_ofLexemes hL⟩

/-- The lexemes of a clean statement are clean. -/
theorem Statement.exists_clean (raw : Text) :
    ∃ L, Lexeme.Clean L ∧ (ofText raw).sql = Text.ofLexemes L [] := by
  unfold ofText
  cases h : raw.trim.splitTerminator? with
  | none => exact Text.exists_clean raw.trim_eq_nil_or_isSolid
  | some body =>
    refine Text.exists_clean (Text.trimEnd_eq_nil_or_isSolid ?_)
    have hbody := Text.splitTerminator?_eq_some_iff.1 h
    rcases raw.trim_eq_nil_or_isSolid with hnil | ⟨⟨c, u, hstart, hc⟩, -⟩
    · rw [hnil] at hbody
      exact absurd hbody.symm (by simp)
    · cases body with
      | nil => rfl
      | cons d body =>
        rw [hbody] at hstart
        rw [← (List.cons.inj hstart).1] at hc
        exact hc

end SqlLayout
