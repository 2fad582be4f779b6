import SqlLayout.Proofs.Scan.Spans

/-!
# Tokens are copied from their spans

A token is what stands in its span, with one space for each run of blank characters outside of
quotes, and in upper case if it is a keyword token.  With the spans that make up the text this says
that no character is lost or read twice, and that no space is put where there was no blank
character.

## Main definitions

* `Text.collapseFrom` : a part of a text with one space for each run of blank characters.
* `Span.IsCopied` : the token of a span is what stands there.

## Main results

* `Text.tokens_cover` : the tokens of a text are copied from the spans that make up the text.
-/

namespace SqlLayout

/-- A part of a text with one space for each run of blank characters outside of quotes, where `s` is
the state of quotes in front of the part. -/
def Text.collapseFrom (s : Quoting) (t : Text) : Text := (chunksFrom s t).flatMap Chunk.collapsed

/-- The token of a span is what stands there, with one space for each run of blank characters
outside of quotes, and in upper case unless it is free text. -/
def Span.IsCopied (sp : Span) : Prop :=
  let copy := Text.collapseFrom (Quoting.outside.after sp.before) sp.source
  sp.token.text = if sp.token.kind = .str then copy else copy.upper

/-- In front of a span no quoted region and no parenthesis is open. -/
theorem Text.nesting_before_span {t : Text} {sp : Span} (h : sp ∈ t.spans) :
    Nesting.start.after sp.before = .start := by
  obtain ⟨L₁, L, L₂, heq, hne, hdepth, hsp, -⟩ := exists_of_mem_spans h
  obtain ⟨x, L, rfl⟩ := List.exists_cons_of_ne_nil hne
  have ht := t.tight_toLexemes
  rw [heq, List.append_assoc, List.cons_append] at ht
  have hbefore : sp.before = ofLexemes L₁ [] ++ x.gap := by rw [hsp]; rfl
  rw [hbefore, ht.nesting_in_front, hdepth]
  rfl

namespace Lexeme

/-- Trimmed lexemes with collapsed gaps have one space in each gap between them. -/
theorem Tight.collapse_trimEnd_body {L : List Lexeme} (h : Tight [] L) :
    (body L).trimEnd.collapse = (body (L.map plain)).trimEnd := by
  rw [← body_trimLast h.sound, h.trimLast.collapse_body, map_plain_trimLast,
    body_trimLast h.map_plain.sound]

end Lexeme

theorem Text.isCopied_of_mem_spans {t : Text} {sp : Span} (h : sp ∈ t.spans) : sp.IsCopied := by
  have houtside : Quoting.outside.after sp.before = .outside := by
    have hquoting := Nesting.quoting_after .start sp.before
    rw [nesting_before_span h] at hquoting
    exact hquoting.symm
  obtain ⟨L₁, L, L₂, heq, hne, -, hsp, hread⟩ := exists_of_mem_spans h
  have ht := t.tight_toLexemes
  rw [heq] at ht
  have hL : Lexeme.Tight [] L := ht.left.right
  have hsource : sp.source = (Lexeme.body L).trimEnd := by rw [hsp]; rfl
  have hcopy : collapseFrom (Quoting.outside.after sp.before) sp.source =
      (Lexeme.body (L.map Lexeme.plain)).trimEnd := by
    rw [houtside, hsource]
    exact hL.collapse_trimEnd_body
  rw [Span.IsCopied, hcopy]
  rcases hread with htoken | hhit
  · rw [htoken]
    rfl
  · have hclosed : ∀ x ∈ L.map Lexeme.plain, x.chunk.Closed := by
      intro x hx
      obtain ⟨y, hy, rfl⟩ := List.mem_map.1 hx
      exact hL.closed_of_hit? hhit y hy
    rw [if_neg (Lexeme.kind_ne_str_of_hit? hhit),
      hL.map_plain.trimEnd_body (hL.map_plain.finished hclosed), hL.upper_body_of_hit? hhit]

/-- The spans of a text make up the text, with blank characters between them; the tokens of a text
are those of its spans; and every token is copied from its span. -/
theorem Text.tokens_cover (t : Text) :
    Span.Tile [] t.spans t ∧ t.spans.map Span.token = t.tokens ∧ ∀ sp ∈ t.spans, sp.IsCopied :=
  ⟨t.tile_spans, t.map_token_spans, fun _ h => isCopied_of_mem_spans h⟩

/-- The free text behind a phrase with a wide gap: blank characters in quotes are kept. -/
theorem Text.tokens_cover_wide_gap :
    (⟨"Order\t by ".toList, "'a  b' , (c  )".toList, .str "'a  b' , (c )".toList⟩ : Span) ∈
        spans "Order\t by 'a  b' , (c  ) ".toList ∧
      Span.IsCopied ⟨"Order\t by ".toList, "'a  b' , (c  )".toList, .str "'a  b' , (c )".toList⟩ :=
  ⟨by decide +kernel,
    (tokens_cover "Order\t by 'a  b' , (c  ) ".toList).2.2 _ (by decide +kernel)⟩

end SqlLayout
