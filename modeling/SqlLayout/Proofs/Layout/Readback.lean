import SqlLayout.Proofs.Layout.Settling

/-!
# Layouts as statements

A layout is read again as a raw statement.  Lines and indents are only gaps in it, and the
terminator that it ends in is the one that was put there, since a clean statement without a
terminator ends in no such character.  So the layout has the lexemes of the statement, and other
gaps.

## Main results

* `Statement.ofText_append_ending` : the clean form of a text with the lexemes of a clean statement.
* `Statement.exists_readback` : the clean form of a layout.
-/

namespace SqlLayout

/-! ### Ends of statements -/

/-- A clean statement that is not terminated does not end in a terminator. -/
theorem Statement.getLast?_sql {raw : Text} (h : (ofText raw).terminated = false) :
    (ofText raw).sql.getLast? ≠ some terminator := by
  unfold ofText at h ⊢
  split at h
  · cases h
  · rename_i hsplit
    refine Text.getLast?_upperKeywords_ne fun hlast => ?_
    rw [Text.splitTerminator?, if_pos hlast] at hsplit
    cases hsplit

namespace Lexeme

theorem getLast?_ofLexemes_concat {x : Lexeme} (h : x.chunk.Sound) (L : List Lexeme) :
    (Text.ofLexemes (L ++ [x]) []).getLast? = x.chunk.text.getLast? := by
  have hsplit : Text.ofLexemes (L ++ [x]) [] = (L.flatMap text ++ x.gap) ++ x.chunk.text := by
    simp [Text.ofLexemes, text]
  rw [hsplit, List.getLast?_append_of_ne_nil _ h.text_ne_nil]

/-- Gaps do not matter to the last character of lexemes. -/
theorem Tight.getLast?_congr {L M : List Lexeme} (h : Tight [] L)
    (heq : L.map chunk = M.map chunk) :
    (Text.ofLexemes M []).getLast? = (Text.ofLexemes L []).getLast? := by
  cases L using List.reverseRecOn with
  | nil =>
    rw [List.map_eq_nil_iff.1 heq.symm]
  | append_singleton L x =>
    cases M using List.reverseRecOn with
    | nil => simp at heq
    | append_singleton M y =>
      rw [List.map_append, List.map_append] at heq
      obtain ⟨-, hchunk⟩ := List.append_inj' heq rfl
      have hchunk : x.chunk = y.chunk := List.head_eq_of_cons_eq hchunk
      have hsound : x.chunk.Sound := h.sound x (by simp)
      rw [getLast?_ofLexemes_concat hsound, getLast?_ofLexemes_concat (hchunk ▸ hsound), hchunk]

/-- A character that is not blank stops trimming behind lexemes. -/
theorem Tight.exists_trim_concat {tail : Text} {L : List Lexeme} (h : Tight tail L) {c : Char}
    (hc : isBlank c = false) :
    ∃ gap : Text, gap.IsBlank ∧
      Text.trim (Text.ofLexemes L tail ++ [c]) = body L ++ gap ++ [c] := by
  cases L with
  | nil =>
    refine ⟨[], nofun, ?_⟩
    rw [Text.ofLexemes_nil, Text.trim,
      (takeWhile_gap_append h.isBlank_tail (show Text.startsBlank [c] = false from hc)).2]
    exact Text.trimEnd_concat_of_not_blank (t := []) hc
  | cons x L =>
    refine ⟨tail, h.isBlank_tail, ?_⟩
    have hstart : Text.startsBlank (body (x :: L) ++ tail ++ [c]) = false := by
      rw [body, List.append_assoc, List.append_assoc]
      exact h.2.1.startsBlank_append _
    rw [ofLexemes_eq_gap_append_body, List.append_assoc, Text.trim,
      (takeWhile_gap_append h.1 hstart).2, Text.trimEnd_concat_of_not_blank hc]

/-- The lexemes of a clean statement with other gaps, and none in front of the first of them. -/
theorem Clean.bare_of_map_chunk_eq {tail : Text} {L K : List Lexeme} (hL : Clean L)
    (hK : Tight tail K) (heq : K.map chunk = L.map chunk) : Clean (Lexeme.bare K) := by
  have hbare := (map_chunk_bare K).trans heq
  refine ⟨hK.bare.without_tail, hL.finished.congr hbare.symm, fun x hx => ?_⟩
  have hmem := List.mem_map_of_mem (f := chunk) hx
  rw [hbare] at hmem
  obtain ⟨y, hy, hchunk⟩ := List.mem_map.1 hmem
  have hfolded : y.chunk.folded = y.chunk := congrArg chunk (hL.folded y hy)
  obtain ⟨gap, z⟩ := x
  obtain rfl : y.chunk = z := hchunk
  exact congrArg (Lexeme.mk gap) hfolded

end Lexeme

/-! ### Reading a layout -/

namespace Statement

/-- The clean form of a text with the lexemes of a clean statement, and behind it the terminator of
the statement if it has one. -/
theorem ofText_append_ending {L K : List Lexeme} {tail : Text} (hL : Lexeme.Clean L)
    (hK : Lexeme.Tight tail K) (heq : K.map Lexeme.chunk = L.map Lexeme.chunk) {terminated : Bool}
    (hend : terminated = false → (Text.ofLexemes L []).getLast? ≠ some terminator) :
    ofText (Text.ofLexemes K tail ++ ending terminated) =
      ⟨Text.ofLexemes (Lexeme.bare K) [], terminated⟩ := by
  have hbare := hL.bare_of_map_chunk_eq hK heq
  have hbody := Lexeme.body_eq_ofLexemes K
  have htight : Lexeme.Tight [] K := hK.without_tail
  have hfinished : Lexeme.Finished K := hL.finished.congr heq.symm
  have hupper : (Lexeme.body K).upperKeywords = Text.ofLexemes (Lexeme.bare K) [] := by
    rw [hbody, Text.upperKeywords_of_folded hbare.tight hbare.folded]
  unfold ofText
  cases terminated with
  | true =>
    obtain ⟨gap, hgap, htrim⟩ := hK.exists_trim_concat (c := terminator) (by decide)
    rw [ending, if_pos rfl, htrim, Text.splitTerminator?_eq_some_iff.2 rfl]
    simp only [Text.trimEnd_append_of_isBlank _ hgap, htight.trimEnd_body hfinished, hupper]
  | false =>
    have hsplit : Text.ofLexemes K tail = Text.ofLexemes K [] ++ tail := by simp [Text.ofLexemes]
    have htrim : Text.trim (Text.ofLexemes K tail) = Lexeme.body K := by
      rw [hsplit, htight.trim_ofLexemes hfinished hK.isBlank_tail]
    have hlast : (Lexeme.body K).getLast? ≠ some terminator := by
      rw [hbody, hL.tight.getLast?_congr]
      · exact hend rfl
      · exact ((Lexeme.map_chunk_bare K).trans heq).symm
    rw [ending, if_neg Bool.false_ne_true, List.append_nil, htrim, Text.splitTerminator?,
      if_neg hlast]
    simp only [hupper]

/-- The clean form of a layout. -/
theorem exists_readback (i : Indent) {raw : Text} {L : List Lexeme} (hL : Lexeme.Clean L)
    (hsql : (ofText raw).sql = Text.ofLexemes L []) :
    ∃ K, Lexeme.Clean K ∧
      ofText (reformat i raw) = ⟨Text.ofLexemes K [], (ofText raw).terminated⟩ ∧
      Lexeme.setOff K =
        (Mark.reflow none 0 true (Scan.start.marks L)).flatMap Mark.source := by
  let X : Text := ['\n'].intercalate (Page.lines i (ofText raw).sql.tokens)
  have hflow : X.flow = (Mark.reflow none 0 true (Scan.start.marks L)).flatMap Mark.source := by
    rw [← Page.flow_lines i hL, ← hsql]
  have heq : X.toLexemes.map Lexeme.chunk = L.map Lexeme.chunk := by
    rw [← Lexeme.map_chunk_setOff, ← Text.flow, hflow, Mark.map_chunk_reflow,
      Scan.flatMap_source_marks]
  refine ⟨Lexeme.bare X.toLexemes, hL.bare_of_map_chunk_eq X.tight_toLexemes heq, ?_, ?_⟩
  · have hread := ofText_append_ending hL X.tight_toLexemes heq fun h => hsql ▸ getLast?_sql h
    rwa [Text.ofLexemes_toLexemes] at hread
  · rw [← hflow, Text.flow]
    cases X.toLexemes <;> rfl

end Statement

end SqlLayout
