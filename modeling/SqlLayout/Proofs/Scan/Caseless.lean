import Mathlib.Data.List.Forall2
import SqlLayout.Proofs.Scan.Shapes
import SqlLayout.Proofs.Scan.Tokens
import SqlLayout.Proofs.Text.LetterCase

/-!
# Letter case and tokens

Written in upper case, a text has the lexemes that it had, in upper case.  Their shapes are the
same, so a scan finds the same hits, and the text has the same tokens but for the letters of free
text.  Texts that differ in letter case are the same in upper case, so this holds of them too.

## Main definitions

* `Chunk.upper`, `Lexeme.upper`, `Mark.upper` : chunks, lexemes and marks in upper case.
* `Token.caseless` : a token with the letters of free text in upper case.
* `Token.EqIgnoringCase` : tokens that differ at most in the letter case of free text.

## Main results

* `Text.toLexemes_upper` : the lexemes of a text in upper case.
* `Text.tokens_upper` : the tokens of a text in upper case.
* `Text.EqIgnoringCase.tokens` : the tokens of texts that differ in letter case.
-/

namespace SqlLayout

/-! ### Texts in upper case -/

/-- Upper case changes word characters only. -/
theorem toUpper_of_not_isWordChar {c : Char} (h : isWordChar c = false) : c.toUpper = c := by
  refine (toUpper_eq_self_or c).resolve_right fun hword => ?_
  rw [h] at hword
  cases hword.2

theorem toUpper_toUpper (c : Char) : c.toUpper.toUpper = c.toUpper := by
  rcases toUpper_eq_self_or_isLetter c with h | ⟨⟨-, hle⟩, -⟩
  · rw [h, h]
  · exact (toUpper_eq_self_or_isLetter c.toUpper).resolve_right fun hletter => by omega

namespace Text

@[simp] theorem upper_upper (t : Text) : t.upper.upper = t.upper := by
  rw [upper, upper, List.map_map]
  exact List.map_congr_left fun c _ => toUpper_toUpper c

theorem upper_of_isBlank {gap : Text} (h : gap.IsBlank) : gap.upper = gap := by
  have hself : ∀ c ∈ gap, c.toUpper = c := fun c hc =>
    toUpper_of_not_isWordChar (isWordChar_of_isBlank (h c hc))
  rw [upper, List.map_congr_left hself, List.map_id']

theorem trimStart_upper (t : Text) : t.upper.trimStart = t.trimStart.upper := by
  have hblank : isBlank ∘ Char.toUpper = isBlank := funext isBlank_toUpper
  rw [trimStart, upper, List.dropWhile_map, hblank]
  rfl

theorem trimEnd_upper (t : Text) : t.upper.trimEnd = t.trimEnd.upper := by
  have hblank : isBlank ∘ Char.toUpper = isBlank := funext isBlank_toUpper
  rw [trimEnd, upper, ← List.map_reverse, List.dropWhile_map, hblank, ← List.map_reverse]
  rfl

theorem trim_upper (t : Text) : t.upper.trim = t.trim.upper := by
  rw [trim, trimStart_upper, trimEnd_upper, trim]

end Text

/-! ### Chunks -/

namespace Chunk

/-- A chunk in upper case.  There are letters in quoted regions and words only. -/
def upper : Chunk → Chunk
  | quoted region => quoted region.upper
  | word letters => word letters.upper
  | chunk => chunk

@[simp] theorem isWord_upper (chunk : Chunk) : chunk.upper.isWord = chunk.isWord := by
  cases chunk <;> rfl

theorem staysOpen_upper {s : Quoting} {t : Text} (h : s.StaysOpen t) : s.StaysOpen t.upper := by
  induction t generalizing s with
  | nil => trivial
  | cons c t ih =>
    refine ⟨h.1, ?_⟩
    rw [Quoting.next_toUpper]
    exact ih h.2

theorem Sound.upper {chunk : Chunk} (h : chunk.Sound) : chunk.upper.Sound := by
  cases chunk with
  | quoted region =>
    obtain ⟨q, body, rfl, hbody⟩ := h
    have hq : q.char.toUpper = q.char := by cases q <;> decide
    refine ⟨q, body.upper, ?_, staysOpen_upper hbody⟩
    rw [Text.upper_cons, hq]
  | word letters =>
    refine ⟨fun hnil => h.1 (List.map_eq_nil_iff.1 hnil), fun c hc => ?_⟩
    obtain ⟨b, hb, rfl⟩ := List.mem_map.1 hc
    rw [isWordChar_toUpper, h.2 b hb]
  | _ => exact h

theorem Sound.text_upper {chunk : Chunk} (h : chunk.Sound) :
    chunk.upper.text = chunk.text.upper := by
  cases chunk with
  | quoted region => rfl
  | word letters => rfl
  | blank run => exact h.elim
  | other c =>
    have hself : [c.toUpper] = [c] := by rw [toUpper_of_not_isWordChar h.2.2]
    exact hself.symm

theorem Sound.closed_upper {chunk : Chunk} (h : chunk.Sound) (hclosed : chunk.Closed) :
    chunk.upper.Closed := by
  rw [Closed, h.text_upper, Quoting.after_upper]
  exact hclosed

@[simp] theorem shape_upper (chunk : Chunk) : chunk.upper.shape = chunk.shape := by
  cases chunk with
  | quoted region => rfl
  | word letters =>
    rw [upper, shape, shape, Keyword.ofWord?_congr (Text.upper_upper letters)]
  | blank run => rfl
  | other c => rfl

end Chunk

/-! ### Lexemes -/

namespace Lexeme

/-- A lexeme in upper case. -/
def upper (x : Lexeme) : Lexeme := ⟨x.gap, x.chunk.upper⟩

@[simp] theorem shape_upper (x : Lexeme) : x.upper.shape = x.shape := by
  simp [shape, upper]

theorem map_plain_map_upper (L : List Lexeme) :
    (L.map upper).map plain = (L.map plain).map upper := by
  simp [upper, plain]

theorem Tight.map_upper {tail : Text} {L : List Lexeme} (h : Tight tail L) :
    Tight tail (L.map upper) := by
  refine h.map fun x hgap hsound => ?_
  exact ⟨hgap, id, hsound.upper, hsound.closed_upper, x.chunk.isWord_upper⟩

/-- The text that lexemes make up, in upper case. -/
theorem Tight.upper_ofLexemes {tail : Text} {L : List Lexeme} (h : Tight tail L) :
    (Text.ofLexemes L tail).upper = Text.ofLexemes (L.map upper) tail := by
  induction L with
  | nil => exact Text.upper_of_isBlank h
  | cons x L ih =>
    rw [List.map_cons, Text.ofLexemes_cons, Text.ofLexemes_cons, Text.upper_append,
      Text.upper_append, Text.upper_of_isBlank h.1, ih h.2.2.2.2, upper, h.2.1.text_upper]

/-- The same from the first chunk on. -/
theorem Tight.upper_body {L : List Lexeme} (h : Tight [] L) :
    (body L).upper = body (L.map upper) := by
  rw [body_eq_ofLexemes, h.bare.upper_ofLexemes, body_eq_ofLexemes]
  cases L <;> rfl

end Lexeme

/-- The lexemes of a text in upper case. -/
theorem Text.toLexemes_upper (t : Text) : t.upper.toLexemes = t.toLexemes.map Lexeme.upper := by
  have h := t.tight_toLexemes
  have hupper := h.upper_ofLexemes
  rw [ofLexemes_toLexemes] at hupper
  rw [hupper, toLexemes_ofLexemes h.map_upper]

/-! ### Marks -/

namespace Mark

/-- A mark in upper case. -/
def upper : Mark → Mark
  | free x => free x.upper
  | keyword source token => keyword (source.map Lexeme.upper) token

@[simp] theorem shape_upper (m : Mark) : m.upper.shape = m.shape := by
  cases m <;> simp [upper, shape]

theorem flatMap_source_map_upper (M : List Mark) :
    (M.map upper).flatMap source = (M.flatMap source).map Lexeme.upper :=
  flatMap_source_map (fun m => by cases m <;> rfl) M

end Mark

/-- Letter case does not matter to a scan. -/
theorem Scan.marks_map_upper (s : Scan) (L : List Lexeme) :
    s.marks (L.map Lexeme.upper) = (s.marks L).map Mark.upper := by
  have hshape : ((s.marks L).map Mark.upper).map Mark.shape = (s.marks L).map Mark.shape := by
    simp
  have hmarks := ((s.valid_marks L).of_shape hshape).marks_eq
  rwa [Mark.flatMap_source_map_upper, s.flatMap_source_marks] at hmarks

/-! ### Tokens -/

namespace Token

/-- A token with its letters in upper case if it is free text. -/
def caseless (t : Token) : Token := if t.kind = .str then .str t.text.upper else t

/-- Two tokens of one kind that have the same text, up to letter case if they are free text. -/
structure EqIgnoringCase (t u : Token) : Prop where
  kind : t.kind = u.kind
  keyword : t.kind ≠ .str → t.text = u.text
  text : t.text.EqIgnoringCase u.text

theorem caseless_of_ne {t : Token} (h : t.kind ≠ .str) : t.caseless = t := if_neg h

theorem kind_caseless (t : Token) : t.caseless.kind = t.kind := by
  unfold caseless
  split
  · rename_i h
    exact h.symm
  · rfl

theorem eqIgnoringCase_of_caseless_eq {t u : Token} (h : t.caseless = u.caseless) :
    t.EqIgnoringCase u := by
  have hkind : t.kind = u.kind := by rw [← t.kind_caseless, h, u.kind_caseless]
  by_cases hstr : t.kind = .str
  · rw [caseless, if_pos hstr, caseless, if_pos (hkind ▸ hstr)] at h
    exact ⟨hkind, fun hne => absurd hstr hne, congrArg Token.text h⟩
  · rw [caseless_of_ne hstr, caseless_of_ne (hkind ▸ hstr)] at h
    subst h
    exact ⟨rfl, fun _ => rfl, rfl⟩

end Token

theorem Text.freeTokens_upper (t : Text) :
    t.upper.freeTokens = t.freeTokens.map Token.caseless := by
  have hempty : t.trim.upper.isEmpty = t.trim.isEmpty := by
    cases t.trim <;> rfl
  rw [freeTokens, freeTokens, trim_upper, hempty]
  split <;> rfl

/-- The tokens of marks in upper case, behind free lexemes that are not yet in a token. -/
theorem Mark.tokensAfter_map_upper {s : Scan} {M : List Mark} (hM : s.Valid M) {run : List Lexeme}
    (h : Lexeme.Tight [] (run ++ M.flatMap source)) :
    tokensAfter (run.map Lexeme.upper) (M.map upper) = (tokensAfter run M).map Token.caseless := by
  have hfree {run : List Lexeme} (hrun : Lexeme.Tight [] run) :
      Text.freeTokens (Lexeme.body ((run.map Lexeme.upper).map Lexeme.plain)) =
        (Text.freeTokens (Lexeme.body (run.map Lexeme.plain))).map Token.caseless := by
    rw [Lexeme.map_plain_map_upper, ← hrun.map_plain.upper_body, Text.freeTokens_upper]
  induction M generalizing s run with
  | nil => exact hfree h.left
  | cons m M ih =>
    cases m with
    | free x =>
      rw [append_flatMap_source_free] at h
      have hrest := ih hM.2 h
      rwa [List.map_append] at hrest
    | keyword src token =>
      have hkind := Lexeme.kind_ne_str_of_hit? (Scan.hit?_eq_some hM.1).2
      have hbehind : Lexeme.Tight [] ([] ++ M.flatMap source) :=
        Lexeme.Tight.right (L := src) h.right
      have hrest := ih hM.2 hbehind
      rw [List.map_nil] at hrest
      rw [List.map_cons, upper, tokensAfter, tokensAfter, List.map_append, List.map_cons,
        hfree h.left, hrest, Token.caseless_of_ne hkind]

/-- The tokens of a text in upper case. -/
theorem Text.tokens_upper (t : Text) : t.upper.tokens = t.tokens.map Token.caseless := by
  have htight := t.tight_toLexemes.without_tail.flatMap_source_marks .start
  rw [tokens_eq_tokensAfter_marks, tokens_eq_tokensAfter_marks, toLexemes_upper,
    Scan.marks_map_upper, ← Mark.tokensAfter_map_upper (Scan.valid_marks .start _) htight,
    List.map_nil]

/-- The tokens of texts that differ in letter case. -/
theorem Text.EqIgnoringCase.tokens {t u : Text} (h : t.EqIgnoringCase u) :
    List.Forall₂ Token.EqIgnoringCase t.tokens u.tokens := by
  have hcaseless : t.tokens.map Token.caseless = u.tokens.map Token.caseless := by
    have h : t.upper = u.upper := h
    rw [← tokens_upper, h, tokens_upper]
  rw [← List.forall₂_eq_eq_eq, List.forall₂_map_left_iff, List.forall₂_map_right_iff] at hcaseless
  exact hcaseless.imp fun _ _ => Token.eqIgnoringCase_of_caseless_eq

end SqlLayout
