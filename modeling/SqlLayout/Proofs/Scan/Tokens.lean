import SqlLayout.Proofs.Scan.FreeWords
import SqlLayout.Token.Stream

/-!
# The tokens of a text by its marks

Words of free text with no keyword token between them make one token.  Here they are put together
again, so that the tokens of a text can be read off the marks of its lexemes.

## Main definitions

* `Mark.tokensAfter` : the tokens of marks, behind free lexemes that are not yet in a token.

## Main results

* `Lexeme.Tight.segments_of_hit?`, `Lexeme.Tight.exists_segments_word` : the first segment of a
  text, read off its lexemes.
* `Text.tokens_eq_tokensAfter_marks` : the tokens of a text are those of its marks.
-/

namespace SqlLayout

namespace Mark

/-- The tokens of marks, behind free lexemes that are not yet in a token. -/
def tokensAfter (run : List Lexeme) : List Mark → List Token
  | [] => Text.freeTokens (Lexeme.body (run.map Lexeme.plain))
  | free x :: M => tokensAfter (run ++ [x]) M
  | keyword _ token :: M =>
    Text.freeTokens (Lexeme.body (run.map Lexeme.plain)) ++ token :: tokensAfter [] M

theorem tokensAfter_map_free_append (run ws : List Lexeme) (M : List Mark) :
    tokensAfter run (ws.map free ++ M) = tokensAfter (run ++ ws) M := by
  induction ws generalizing run with
  | nil => rw [List.append_nil, List.map_nil, List.nil_append]
  | cons x ws ih =>
    rw [List.map_cons, List.cons_append, tokensAfter, ih, List.append_assoc, List.singleton_append]

end Mark

namespace Lexeme

theorem body_ne_nil {x : Lexeme} (h : x.chunk.Sound) (L : List Lexeme) : body (x :: L) ≠ [] :=
  List.append_ne_nil_of_left_ne_nil h.text_ne_nil _

/-- Free text with one more word, where the word has a gap in front of it. -/
theorem appendWord_body {run ws : List Lexeme} {inner : Text} {x : Lexeme}
    (hrun : ∀ y ∈ run, y.chunk.Sound) (hws : Tight inner (x :: ws))
    (hgap : run = [] ∨ x.gap ≠ []) :
    Text.appendWord (body (run.map plain)) (body (x :: ws) ++ inner) =
      body ((run ++ x :: ws).map plain) := by
  rw [Text.appendWord, hws.squeeze_body, List.map_append]
  cases run with
  | nil => rfl
  | cons y run =>
    have hne : body ((y :: run).map plain) ≠ [] := by
      rw [List.map_cons]
      exact body_ne_nil (hrun y List.mem_cons_self) _
    have hx : x.plain.gap = [' '] := by
      have hg : x.gap ≠ [] := hgap.resolve_left (List.cons_ne_nil y run)
      simp [plain, hg]
    rw [if_neg (by rw [List.isEmpty_iff]; exact hne), body_append _ _ (by simp)]
    simp [body, Text.ofLexemes, Lexeme.text, hx]

end Lexeme

/-! ### Segments and marks -/

namespace Text

theorem segments_gap_append {gap : Text} (h : gap.IsBlank) (t : Text) :
    segments (gap ++ t) = gap.map Segment.gap ++ segments t := by
  induction gap with
  | nil => rfl
  | cons c gap ih =>
    have hc := h c List.mem_cons_self
    rw [List.cons_append, segments_cons, Segment.first_eq, if_pos hc, List.map_cons,
      List.cons_append, ← ih fun b hb => h b (List.mem_cons_of_mem c hb)]
    rfl

/-- The segments of a text that begins with a hit. -/
theorem segments_of_hit? {t : Text} (ht : t.startsBlank = false) {hit : Hit}
    (hhit : t.hit? = some hit) :
    segments t = .keyword hit :: segments (t.drop hit.source.length) := by
  cases t with
  | nil =>
    have hnone : hit? [] = none := by decide
    rw [hnone] at hhit
    cases hhit
  | cons c t =>
    have hfirst : Segment.first c t = .keyword hit := by
      rw [Segment.first_eq, if_neg (by simpa [startsBlank] using ht), hhit]
    rw [segments_cons, hfirst]
    rfl

/-- The segments of a text that begins with a word of free text. -/
theorem segments_of_hit?_eq_none {t : Text} (ht : t.startsBlank = false) (hne : t ≠ [])
    (hhit : t.hit? = none) :
    segments t = .word t.firstWord :: segments (t.drop t.firstWord.length) := by
  cases t with
  | nil => exact absurd rfl hne
  | cons c t =>
    have hfirst : Segment.first c t = .word (firstWord (c :: t)) := by
      rw [Segment.first_eq, if_neg (by simpa [startsBlank] using ht), hhit]
    rw [segments_cons, hfirst]
    rfl

end Text

theorem Segment.tokensAfter_gap_append (free gap : Text) (rest : List Segment) :
    tokensAfter free (gap.map Segment.gap ++ rest) = tokensAfter free rest := by
  induction gap with
  | nil => rfl
  | cons c gap ih => exact ih

namespace Lexeme

theorem Tight.startsBlank_body {tail : Text} {x : Lexeme} {L : List Lexeme}
    (h : Tight tail (x :: L)) : Text.startsBlank (body (x :: L) ++ tail) = false := by
  rw [body, List.append_assoc]
  exact h.2.1.startsBlank_append _

/-- The first segment of lexemes that begin with a hit. -/
theorem Tight.segments_of_hit? {tail : Text} {x : Lexeme} {L : List Lexeme}
    (h : Tight tail (x :: L)) {n : Nat} {token : Token} (hread : hit? (x :: L) = some (n, token)) :
    Text.segments (body (x :: L) ++ tail) = .keyword ⟨body ((x :: L).take n), token⟩ ::
      Text.segments (Text.ofLexemes ((x :: L).drop n) tail) := by
  have hhit := h.hit?_body
  rw [hread, Option.map_some] at hhit
  have hsplit : body (x :: L) ++ tail =
      body ((x :: L).take n) ++ Text.ofLexemes ((x :: L).drop n) tail := by
    have htake : (x :: L).take n ≠ [] := by simp [Nat.ne_of_gt (length_of_hit? hread).1]
    have happend := body_append _ ((x :: L).drop n) htake
    rw [List.take_append_drop] at happend
    rw [happend]
    simp [Text.ofLexemes]
  have hdrop := congrArg (List.drop (body ((x :: L).take n)).length) hsplit
  rw [List.drop_left] at hdrop
  rw [Text.segments_of_hit? h.startsBlank_body hhit, hdrop]

/-- The first segment of lexemes that begin with free text: a word, of some lexemes and perhaps of
blank characters at the end of the text. -/
theorem Tight.exists_segments_word {tail : Text} {x : Lexeme} {L : List Lexeme}
    (h : Tight tail (x :: L)) (hread : hit? (x :: L) = none) :
    ∃ ws rest inner outer, L = ws ++ rest ∧ Tight inner (x :: ws) ∧ Tight outer rest ∧
      Text.segments (body (x :: L) ++ tail) = .word (body (x :: ws) ++ inner) ::
        Text.segments (Text.ofLexemes rest outer) ∧
      Scan.start.marks (x :: L) = (x :: ws).map Mark.free ++ Scan.start.marks rest ∧
      ∀ y ∈ rest.head?, y.gap ≠ [] ∨ (hit? rest).isSome = true := by
  have hhit := h.hit?_body
  rw [hread, Option.map_none] at hhit
  have hstart := h.startsBlank_body
  have hne : body (x :: L) ++ tail ≠ [] :=
    List.append_ne_nil_of_left_ne_nil (body_ne_nil h.2.1 L) tail
  obtain ⟨ws, rest, inner, outer, rfl, rfl, hinner, hword, hmarks, hrest⟩ :=
    h.exists_firstWord hread
  have hsplit : body (x :: (ws ++ rest)) ++ (inner ++ outer) =
      (body (x :: ws) ++ inner) ++ Text.ofLexemes rest outer := by
    rcases hinner with rfl | rfl <;> simp [body, Text.ofLexemes]
  have hdrop := congrArg (List.drop (body (x :: ws) ++ inner).length) hsplit
  rw [List.drop_left] at hdrop
  refine ⟨ws, rest, inner, outer, rfl, ?_, ?_, ?_, hmarks, hrest⟩
  · rcases hinner with rfl | rfl
    · rw [List.append_nil] at h
      exact h.of_tail_append
    · exact Tight.left (L := x :: ws) h
  · rcases hinner with rfl | rfl
    · exact fun c hc => h.isBlank_tail c (List.mem_append_right inner hc)
    · exact Tight.right (L := x :: ws) h
  · rw [Text.segments_of_hit?_eq_none hstart hne hhit, hword, hdrop]

/-- The tokens of segments are those of marks, behind free text that is not yet a token. -/
theorem Tight.tokensAfter_segments {tail : Text} {L : List Lexeme} (h : Tight tail L)
    {run : List Lexeme} (hrun : ∀ x ∈ run, x.chunk.Sound)
    (hhead : run = [] ∨ ∀ x ∈ L.head?, x.gap ≠ [] ∨ (hit? L).isSome = true) :
    Segment.tokensAfter (body (run.map plain)) (Text.ofLexemes L tail).segments =
      Mark.tokensAfter run (Scan.start.marks L) := by
  induction hn : L.length using Nat.strongRecOn generalizing L tail run with
  | ind n ih =>
    cases L with
    | nil =>
      rw [Text.ofLexemes_nil, ← List.append_nil tail, Text.segments_gap_append h,
        Segment.tokensAfter_gap_append]
      rfl
    | cons x L =>
      rw [ofLexemes_eq_gap_append_body, Text.segments_gap_append h.1,
        Segment.tokensAfter_gap_append]
      cases hread : hit? (x :: L) with
      | some r =>
        obtain ⟨k, token⟩ := r
        obtain ⟨hpos, hle⟩ := length_of_hit? hread
        have hmarks : Scan.start.hit? (x :: L) = some (k, token) := by
          simp [Scan.hit?, Scan.start, hread]
        have hshort : ((x :: L).drop k).length < n := by
          rw [List.length_drop]
          omega
        have htight : Tight tail ((x :: L).drop k) :=
          Tight.right (L := (x :: L).take k) (by rwa [List.take_append_drop])
        rw [h.segments_of_hit? hread, Scan.marks_of_some hmarks, Segment.tokensAfter,
          Mark.tokensAfter, ← ih _ hshort htight (List.forall_mem_nil _) (Or.inl rfl) rfl]
        rfl
      | none =>
        obtain ⟨ws, rest, inner, outer, rfl, hws, htight, hsegments, hmarks, hrest⟩ :=
          h.exists_segments_word hread
        have hgap : run = [] ∨ x.gap ≠ [] := by
          refine hhead.imp_right fun hhead => (hhead x rfl).resolve_right fun hsome => ?_
          rw [hread] at hsome
          cases hsome
        have hshort : rest.length < n := by
          rw [← hn, List.length_cons, List.length_append]
          omega
        rw [hsegments, Segment.tokensAfter, appendWord_body hrun hws hgap, hmarks,
          Mark.tokensAfter_map_free_append]
        refine ih _ hshort htight (fun y hy => ?_) (Or.inr hrest) rfl
        rcases List.mem_append.1 hy with hy | hy
        · exact hrun y hy
        · exact hws.sound y hy

end Lexeme

/-- The tokens of a text are those of the marks of its lexemes. -/
theorem Text.tokens_eq_tokensAfter_marks (t : Text) :
    t.tokens = Mark.tokensAfter [] (Scan.start.marks t.toLexemes) := by
  rw [tokens_eq, ← t.tight_toLexemes.tokensAfter_segments (List.forall_mem_nil _) (Or.inl rfl),
    ofLexemes_toLexemes]
  rfl

end SqlLayout
