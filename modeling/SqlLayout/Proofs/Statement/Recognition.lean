import SqlLayout.Proofs.Scan.Caseless
import SqlLayout.Proofs.Scan.Coverage

/-!
# One recognition of keywords

Keywords are looked for twice.  A statement is cleaned word by word: each longest run of word
characters is looked up in the table.  A scan for tokens knows no words: it compares the letters at
the start of a text with those of a keyword, and then asks whether the word goes on.  The two find
the same keywords.  So the words of a keyword token stand in upper case in a clean statement, and
the token is copied from it without a change of letter case.

## Main definitions

* `Span.IsVerbatim` : a token is what stands in its span, which is in upper case.

## Main results

* `Statement.isVerbatim_of_mem_spans` : the keyword tokens of a clean statement are copied as they
  stand.
* `keywords_recognized_alike` : the two ways to look for keywords, and what follows for tokens.
-/

namespace SqlLayout

/-- The token of a span is what stands there, with one space for each run of blank characters; what
stands there is in upper case. -/
structure Span.IsVerbatim (sp : Span) : Prop where
  upper : sp.source.upper = sp.source
  text : sp.token.text = sp.source.collapse

namespace Lexeme

theorem upper_eq_self {x : Lexeme} (h : x.chunk.InKeyword) (hfolded : x.fold = x) :
    x.upper = x := by
  have htext := upper_text_of_inKeyword h hfolded
  obtain ⟨gap, chunk⟩ := x
  cases chunk with
  | word letters =>
    have hletters : letters.upper = letters := htext
    rw [upper, Chunk.upper, hletters]
  | other c => rfl
  | _ => exact h.elim

/-- Clean lexemes that a hit takes are in upper case, whatever gaps there are between them. -/
theorem Tight.upper_body_of_folded {L rest : List Lexeme} {token : Token} (hL : Tight [] L)
    (hfolded : ∀ x ∈ L, x.fold = x) (h : hit? (L ++ rest) = some (L.length, token)) :
    (body L).upper = body L := by
  have hself : ∀ x ∈ L, x.upper = x := fun x hx =>
    upper_eq_self (inKeyword_of_hit? h x hx) (hfolded x hx)
  rw [hL.upper_body, List.map_congr_left hself, List.map_id']

end Lexeme

/-- The keyword tokens of a clean statement are copied as they stand. -/
theorem Statement.isVerbatim_of_mem_spans {raw : Text} {sp : Span}
    (h : sp ∈ (ofText raw).sql.spans) (hkind : sp.token.kind ≠ .str) : sp.IsVerbatim := by
  obtain ⟨K, hK, hsql⟩ := exists_clean raw
  obtain ⟨L₁, L, L₂, heq, -, -, hsp, hread⟩ := Text.exists_of_mem_spans h
  rw [hsql, Text.toLexemes_ofLexemes hK.tight] at heq
  subst heq
  have hL : Lexeme.Tight [] L := hK.tight.left.right
  -- the left end of the span is that of a lexeme, so no word begins in front of it
  have hfolded : ∀ x ∈ L, x.fold = x := fun x hx =>
    hK.folded x (List.mem_append_left _ (List.mem_append_right _ hx))
  have hhit := hread.resolve_left fun htoken => hkind (by rw [htoken]; rfl)
  have hsource : sp.source = Lexeme.body L := by
    rw [hsp]
    exact hL.trimEnd_body (hL.finished (hL.closed_of_hit? hhit))
  constructor
  · rw [hsource, hL.upper_body_of_folded hfolded hhit]
  · rw [hsource, hL.collapse_body, hL.body_of_hit? hfolded hhit]

/-- A text starts with a keyword exactly if its longest run of word characters, looked up in the
table, gives that keyword, and then the match has the length of the run.  So in a clean statement
every keyword token has been read from a span that was in upper case. -/
theorem keywords_recognized_alike :
    (∀ (k : Keyword) (t : Text) (n : Nat),
      (k.split? t).map (fun cut => cut.1.utf8Size) = some n ↔
        Keyword.ofWord? (t.takeWhile isWordChar) = some k ∧
          n = Text.utf8Size (t.takeWhile isWordChar)) ∧
    ∀ raw : Text, let sql := (Statement.ofText raw).sql
      Span.Tile [] sql.spans sql ∧ sql.spans.map Span.token = sql.tokens ∧
        ∀ sp ∈ sql.spans, sp.token.kind ≠ .str → sp.IsVerbatim := by
  refine ⟨fun k t n => ?_, fun raw => ?_⟩
  · rw [k.split?_eq_ite]
    split
    · rename_i h
      simp [h, eq_comm]
    · rename_i h
      simp [h]
  · exact ⟨Text.tile_spans _, Text.map_token_spans _, fun _ => Statement.isVerbatim_of_mem_spans⟩

/-- A word ends in front of a combining accent, and `LIKE` stands inside `unlike` for neither of the
two.  A wide gap in a phrase is no matter of letter case. -/
theorem keywords_recognized_alike_beside_accent :
    ((Keyword.in.split? "iN\u0301".toList).map fun cut => cut.1.utf8Size) = some 2 ∧
      Span.IsVerbatim
        ⟨"unlike ".toList, "NOT \t LIKE".toList, ⟨.compare, "NOT LIKE".toList⟩⟩ :=
  ⟨(keywords_recognized_alike.1 .in "iN\u0301".toList 2).2 (by decide +kernel),
    (keywords_recognized_alike.2 "unlike not \t Like b".toList).2.2 _ (by decide +kernel)
      (by decide)⟩

end SqlLayout
