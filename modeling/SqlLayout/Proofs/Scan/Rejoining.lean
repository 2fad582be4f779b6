import SqlLayout.Proofs.Scan.Gaps
import SqlLayout.Proofs.Scan.Shapes
import SqlLayout.Proofs.Scan.TopLevel

/-!
# Tokens that are joined

The texts of tokens with a space between them are a text again.  In comparison with the text that
they come from it has new gaps, its keyword tokens are in upper case, and it ends in no blank
character.  But all new gaps stand where a token begins, so a scan looks for a hit there anyway,
and letter case does not matter to it.  So the tokens of a text are a normal form of the text.

## Main definitions

* `Mark.trimLast` : marks with the blank characters at their end taken off.
* `Mark.spaced` : marks with a gap in front of each token.
* `Mark.folded` : a mark with its keyword token in upper case.

## Main results

* `Text.tokens_trim` : blank characters at the ends of a text do not matter to its tokens.
* `Mark.flatMap_flow_tokensAfter` : tokens flow as their marks with gaps in front of the tokens.
* `Text.tokens_joined` : joined tokens are read again as the same tokens.
-/

namespace SqlLayout

/-! ### The ends of a text -/

namespace Lexeme

theorem trimLast_ne_nil (x : Lexeme) (L : List Lexeme) : trimLast (x :: L) ≠ [] := by
  cases L <;> exact List.cons_ne_nil _ _

/-- Trimmed free text makes the same token. -/
theorem Tight.freeTokens_trimLast {L : List Lexeme} (h : Tight [] L) :
    Text.freeTokens (body ((Lexeme.trimLast L).map plain)) =
      Text.freeTokens (body (L.map plain)) := by
  cases L with
  | nil => rfl
  | cons x L =>
    rw [freeTokens_body h.trimLast.sound (trimLast_ne_nil x L),
      freeTokens_body h.sound (List.cons_ne_nil x L), map_plain_trimLast,
      body_trimLast h.map_plain.sound, Text.trimEnd_trimEnd]

/-- Trimming the text that lexemes make up trims the last of them. -/
theorem Tight.trimEnd_ofLexemes {tail : Text} {L : List Lexeme} (h : Tight tail L) :
    (Text.ofLexemes L tail).trimEnd = Text.ofLexemes (Lexeme.trimLast L) [] := by
  cases L with
  | nil => exact Text.trimEnd_of_isBlank h
  | cons x L =>
    have hgap (M : List Lexeme) : Text.ofLexemes (Lexeme.trimLast (x :: M)) [] =
        x.gap ++ body (Lexeme.trimLast (x :: M)) := by
      cases M <;> simp [Lexeme.trimLast, ofLexemes_eq_gap_append_body, body]
    rw [hgap, body_trimLast h.sound, ofLexemes_eq_gap_append_body, ← List.append_assoc,
      Text.trimEnd_append_of_isBlank _ h.isBlank_tail,
      Text.trimEnd_append (not_isBlank_body h.2.1 L)]

end Lexeme

namespace Mark

/-- Marks with the blank characters at the end of the last chunk taken off. -/
def trimLast : List Mark → List Mark
  | [] => []
  | [free x] => [free ⟨x.gap, x.chunk.trimmed⟩]
  | [keyword source token] => [keyword (Lexeme.trimLast source) token]
  | m :: m' :: M => m :: trimLast (m' :: M)

theorem flatMap_source_trimLast {s : Scan} {M : List Mark} (h : s.Valid M) :
    (trimLast M).flatMap source = Lexeme.trimLast (M.flatMap source) := by
  induction M generalizing s with
  | nil => rfl
  | cons m M ih =>
    obtain ⟨s', hM⟩ : ∃ s' : Scan, s'.Valid M := by
      cases m with
      | free x => exact ⟨_, h.2⟩
      | keyword src token => exact ⟨_, h.2⟩
    cases M with
    | nil => cases m <;> simp [trimLast, source, Lexeme.trimLast]
    | cons m' M =>
      have hcons : (m :: m' :: M).flatMap source = m.source ++ (m' :: M).flatMap source := rfl
      rw [trimLast, List.flatMap_cons, ih hM, hcons,
        Lexeme.trimLast_append _ (flatMap_source_ne_nil hM)]

theorem map_shape_trimLast (M : List Mark) : (trimLast M).map shape = M.map shape := by
  induction M with
  | nil => rfl
  | cons m M ih =>
    cases M with
    | nil =>
      cases m with
      | free x => simp [trimLast, shape, Lexeme.shape]
      | keyword src token => simp [trimLast, shape, Lexeme.map_shape_trimLast]
    | cons m' M => rw [trimLast, List.map_cons, ih]; rfl

theorem tokensAfter_trimLast {M : List Mark} {run : List Lexeme}
    (h : Lexeme.Tight [] (run ++ M.flatMap source)) :
    tokensAfter run (trimLast M) = tokensAfter run M := by
  induction M generalizing run with
  | nil => rfl
  | cons m M ih =>
    cases m with
    | free x =>
      rw [append_flatMap_source_free] at h
      cases M with
      | nil =>
        rw [List.flatMap_nil, List.append_nil] at h
        have htrim := h.freeTokens_trimLast
        rwa [Lexeme.trimLast_append _ (List.cons_ne_nil x [])] at htrim
      | cons m' M => rw [trimLast, tokensAfter, tokensAfter, ih h]
    | keyword src token =>
      have hbehind : Lexeme.Tight [] ([] ++ M.flatMap source) := h.right.right
      cases M with
      | nil => rfl
      | cons m' M => rw [trimLast, tokensAfter, tokensAfter, ih hbehind]

end Mark

namespace Text

/-- Blank characters at the end of a text do not matter to its tokens, not even in quotes. -/
theorem tokens_trimEnd (t : Text) : t.trimEnd.tokens = t.tokens := by
  obtain ⟨L, tail, hL, rfl⟩ := exists_tight t
  have hvalid := Scan.valid_marks .start L
  have hmarks := (hvalid.of_shape (Mark.map_shape_trimLast _)).marks_eq
  rw [Mark.flatMap_source_trimLast hvalid, Scan.flatMap_source_marks] at hmarks
  rw [hL.trimEnd_ofLexemes, tokens_eq_tokensAfter_marks, tokens_eq_tokensAfter_marks,
    toLexemes_ofLexemes hL, toLexemes_ofLexemes hL.without_tail.trimLast, hmarks,
    Mark.tokensAfter_trimLast (hL.without_tail.flatMap_source_marks .start)]

/-- Blank characters at the ends of a text do not matter to its tokens. -/
theorem tokens_trim (t : Text) : t.trim.tokens = t.tokens := by
  have hflow := flow_gap_append t.isBlank_takeWhile t.trimStart
  rw [takeWhile_append_trimStart] at hflow
  rw [trim, tokens_trimEnd, tokens_eq_of_flow_eq hflow]

end Text

/-! ### Marks with a gap in front of each token -/

namespace Mark

/-- Marks with one space for each gap, and one in front of each token, where `fresh` says that a
token begins. -/
def spaced : Bool → List Mark → List Mark
  | _, [] => []
  | fresh, free x :: M => free (if fresh then ⟨[' '], x.chunk⟩ else x.plain) :: spaced false M
  | _, keyword source token :: M => keyword (Lexeme.setOff source) token :: spaced true M

/-- A mark with its keyword token in upper case. -/
def folded : Mark → Mark
  | free x => free x
  | keyword source token => keyword (source.map Lexeme.fold) token

theorem shape_folded (m : Mark) : m.folded.shape = m.shape := by
  cases m <;> simp [folded, shape]

/-- A new gap in front of a token stands where a scan looks for a hit anyway. -/
theorem regapped_spaced {s : Scan} {fresh : Bool} (h : fresh = true → s.ready = true)
    (M : List Mark) : s.Regapped M (spaced fresh M) := by
  induction M generalizing s fresh with
  | nil => trivial
  | cons m M ih =>
    cases m with
    | free x =>
      cases fresh with
      | true => exact ⟨⟨rfl, nofun⟩, fun _ _ _ => Or.inl (h rfl), ih nofun⟩
      | false =>
        exact ⟨x.regapped_plain, fun _ hx hy => absurd (Lexeme.plain_gap_eq_nil_iff.2 hx) hy,
          ih nofun⟩
    | keyword src token =>
      exact ⟨rfl, Lexeme.forall₂_regapped_setOff src, Lexeme.bare_map_plain_setOff src,
        ih fun _ => rfl⟩

/-- Marks with gaps in front of tokens and keywords in upper case are valid again. -/
theorem valid_folded_spaced {M : List Mark} (h : Scan.start.Valid M) :
    Scan.start.Valid ((spaced true M).map folded) := by
  have hspaced : Scan.start.Regapped M (spaced true M) := regapped_spaced (fun _ => rfl) M
  refine (h.of_regapped hspaced).of_shape ?_
  rw [List.map_map]
  exact List.map_congr_left fun m _ => m.shape_folded

theorem tokensAfter_map_folded (run : List Lexeme) (M : List Mark) :
    tokensAfter run (M.map folded) = tokensAfter run M := by
  induction M generalizing run with
  | nil => rfl
  | cons m M ih =>
    cases m with
    | free x => exact ih (run ++ [x])
    | keyword src token => rw [List.map_cons, folded, tokensAfter, tokensAfter, ih]

/-- Gaps in front of tokens do not matter to tokens. -/
theorem tokensAfter_spaced {run run' : List Lexeme} {fresh : Bool}
    (h : Lexeme.bare (run'.map Lexeme.plain) = Lexeme.bare (run.map Lexeme.plain))
    (hfresh : fresh = true → run = []) (M : List Mark) :
    tokensAfter run' (spaced fresh M) = tokensAfter run M := by
  induction M generalizing run run' fresh with
  | nil => exact tokensAfter_map_plain h []
  | cons m M ih =>
    cases m with
    | free x =>
      rw [spaced, tokensAfter, tokensAfter]
      refine ih ?_ fun hfalse => absurd hfalse Bool.false_ne_true
      cases fresh with
      | true =>
        obtain rfl := hfresh rfl
        have hlen := congrArg List.length h
        rw [Lexeme.length_bare, List.length_map, Lexeme.length_bare] at hlen
        obtain rfl : run' = [] := List.length_eq_zero_iff.1 hlen
        rfl
      | false => simpa using Lexeme.bare_append_congr h [x.plain]
    | keyword src token =>
      have hfree := tokensAfter_map_plain h []
      rw [List.map_nil, tokensAfter, tokensAfter] at hfree
      rw [spaced, tokensAfter, tokensAfter, hfree, ih rfl fun _ => rfl]

theorem spaced_false_map_free (run : List Lexeme) :
    spaced false (run.map free) = (run.map Lexeme.plain).map free := by
  induction run with
  | nil => rfl
  | cons x run ih => rw [List.map_cons, spaced, ih]; rfl

theorem spaced_map_free (run : List Lexeme) :
    spaced true (run.map free) = (Lexeme.setOff run).map free := by
  cases run with
  | nil => rfl
  | cons x run => rw [List.map_cons, spaced, spaced_false_map_free]; rfl

theorem spaced_append_keyword (fresh : Bool) (run src : List Lexeme) (token : Token)
    (M : List Mark) :
    spaced fresh (run.map free ++ keyword src token :: M) =
      spaced fresh (run.map free) ++ keyword (Lexeme.setOff src) token :: spaced true M := by
  induction run generalizing fresh with
  | nil => rfl
  | cons x run ih => rw [List.map_cons, List.cons_append, spaced, spaced, ih, List.cons_append]

end Mark

/-! ### The flow of tokens -/

namespace Lexeme

/-- Free text flows as the lexemes that it has been made from. -/
theorem Tight.flow_freeTokens {L : List Lexeme} (h : Tight [] L) (hL : Finished L) :
    (Text.freeTokens (body (L.map plain))).flatMap (fun t => t.text.flow) = Lexeme.setOff L := by
  cases L with
  | nil => rfl
  | cons x L =>
    rw [freeTokens_body h.sound (List.cons_ne_nil x L),
      h.map_plain.trimEnd_body (hL.congr (map_chunk_map_plain _).symm), List.flatMap_singleton,
      Token.str, h.map_plain.flow_body, setOff_map_plain]

end Lexeme

namespace Mark

theorem map_folded_map_free (L : List Lexeme) : (L.map free).map folded = L.map free := by
  simp [folded]

/-- The tokens of marks flow as the marks with gaps in front of the tokens, behind free lexemes that
are not yet in a token. -/
theorem flatMap_flow_tokensAfter {s : Scan} {M : List Mark} (hM : s.Valid M) {run : List Lexeme}
    (h : Lexeme.Tight [] (run ++ M.flatMap source))
    (hfinished : Lexeme.Finished (run ++ M.flatMap source)) :
    (tokensAfter run M).flatMap (fun t => t.text.flow) =
      ((spaced true (run.map free ++ M)).map folded).flatMap source := by
  induction M generalizing s run with
  | nil =>
    rw [List.flatMap_nil, List.append_nil] at h hfinished
    rw [List.append_nil, spaced_map_free, map_folded_map_free, flatMap_source_map_free]
    exact h.flow_freeTokens hfinished
  | cons m M ih =>
    cases m with
    | free x =>
      rw [append_flatMap_source_free] at h hfinished
      rw [map_free_append_free]
      exact ih hM.2 h hfinished
    | keyword src token =>
      have hhit := (Scan.hit?_eq_some hM.1).2
      have hrun : Lexeme.Finished run :=
        h.left.finished (h.closed_left (flatMap_source_ne_nil hM))
      have hsrc : Lexeme.Tight [] (src ++ M.flatMap source) := h.right
      have hbehind : Lexeme.Tight [] ([] ++ M.flatMap source) := hsrc.right
      have hrest := ih hM.2 hbehind hfinished.right.right
      rw [tokensAfter, List.flatMap_append, List.flatMap_cons, hrest, h.left.flow_freeTokens hrun,
        (hsrc.left.flow_of_hit? hhit).1, Lexeme.setOff_map_fold, spaced_append_keyword,
        spaced_map_free, List.map_append, map_folded_map_free, List.flatMap_append,
        flatMap_source_map_free]
      rfl

end Mark

namespace Text

/-- Joined tokens flow as the marks of the text with gaps in front of the tokens. -/
theorem flow_joined {L : List Lexeme} (h : Lexeme.Tight [] L) (hfinished : Lexeme.Finished L) :
    flow ([' '].intercalate ((ofLexemes L []).tokens.map Token.text)) =
      ((Mark.spaced true (Scan.start.marks L)).map Mark.folded).flatMap Mark.source := by
  have hvalid := Scan.valid_marks .start L
  have hflat : [] ++ (Scan.start.marks L).flatMap Mark.source = L :=
    Scan.flatMap_source_marks .start L
  have hopen := (ofLexemes L []).openOnlyLast_tokens
  rw [flow_intercalate isBlank_space, List.flatMap_map, tokens_eq_tokensAfter_marks,
    toLexemes_ofLexemes h]
  · exact Mark.flatMap_flow_tokensAfter hvalid (h.flatMap_source_marks .start) (by rwa [hflat])
  · intro l hl
    rw [← List.map_dropLast] at hl
    obtain ⟨t, ht, rfl⟩ := List.mem_map.1 hl
    exact (hopen.complete_of_mem_dropLast t ht).closed

/-- Joined tokens are read again as the same tokens: the tokens of a text are a normal form of the
text. -/
theorem tokens_joined (t : Text) :
    tokens ([' '].intercalate (t.tokens.map Token.text)) = t.tokens := by
  rw [← tokens_trim t]
  rcases t.trim_eq_nil_or_isSolid with hnil | hsolid
  · rw [hnil]
    rfl
  · obtain ⟨L, heq, hL, hfinished⟩ := hsolid.exists_lexemes
    rw [heq, tokens_eq_tokensAfter_flow, flow_joined hL hfinished,
      (Mark.valid_folded_spaced (Scan.valid_marks .start L)).marks_eq,
      Mark.tokensAfter_map_folded, Mark.tokensAfter_spaced rfl fun _ => rfl,
      tokens_eq_tokensAfter_marks, toLexemes_ofLexemes hL]

end Text

end SqlLayout
