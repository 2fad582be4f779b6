import SqlLayout.Proofs.Scan.Sources
import SqlLayout.Proofs.Scan.Tokens

/-!
# The spans of tokens

Every token has been read from a part of the text, its span.  Spans follow each other with nothing
but blank characters between them.  A span consists of whole lexemes, but for blank characters at
the end of the text that a region left open holds.

## Main definitions

* `Span` : a token with the part of a text that it was read from, and what stands in front of it.
* `Span.Tile` : spans with blank characters between them make up a text.
* `Text.spans` : the spans of a text.

## Main results

* `Text.exists_of_mem_spans` : the lexemes of a span, and where they stand.
* `Text.tile_spans`, `Text.map_token_spans` : the spans of a text make up the text, and have its
  tokens.
-/

namespace SqlLayout

/-- The gap of the first of some lexemes. -/
def Lexeme.firstGap : List Lexeme → Text
  | [] => []
  | x :: _ => x.gap

theorem Lexeme.ofLexemes_eq_firstGap_append (L : List Lexeme) (tail : Text) :
    Text.ofLexemes L tail = firstGap L ++ (body L ++ tail) := by
  cases L with
  | nil => rfl
  | cons x L => exact ofLexemes_eq_gap_append_body x L tail

/-- A token with the part of a text that it was read from, and all that stands in front of this
part. -/
structure Span where
  before : Text
  source : Text
  token : Token
  deriving DecidableEq

namespace Span

/-- The span of lexemes with a token.  Blank characters at the end of a region that is left open
do not belong to it. -/
def ofLexemes (before : Text) (L : List Lexeme) (token : Token) : Span where
  before := before ++ Lexeme.firstGap L
  source := (Lexeme.body L).trimEnd
  token := token

/-- The span of free lexemes, if there are any. -/
def ofRun (before : Text) (run : List Lexeme) : List Span :=
  if run.isEmpty then []
  else [ofLexemes before run (.str (Lexeme.body (run.map Lexeme.plain)).trimEnd)]

/-- Spans make up the rest of a text, with blank characters between them, where `before` stands in
front of the rest.  Every span begins and ends with a character that is not blank. -/
def Tile (before : Text) : List Span → Text → Prop
  | [], rest => rest.IsBlank
  | sp :: spans, rest => ∃ gap rest' : Text, gap.IsBlank ∧ sp.source.IsSolid ∧
      rest = gap ++ (sp.source ++ rest') ∧ sp.before = before ++ gap ∧
      Tile (sp.before ++ sp.source) spans rest'

end Span

/-- The spans of marks, behind a text and free lexemes that are not yet in a span. -/
def Mark.spansAfter (before : Text) (run : List Lexeme) : List Mark → List Span
  | [] => Span.ofRun before run
  | free x :: M => spansAfter before (run ++ [x]) M
  | keyword source token :: M =>
    Span.ofRun before run ++ Span.ofLexemes (before ++ Text.ofLexemes run []) source token ::
      spansAfter (before ++ Text.ofLexemes run [] ++ Text.ofLexemes source []) [] M

/-- The spans of a text: one for each of its tokens. -/
def Text.spans (t : Text) : List Span := Mark.spansAfter [] [] (Scan.start.marks t.toLexemes)

/-! ### The tokens of spans -/

namespace Lexeme

theorem startsBlank_body {L : List Lexeme} (h : ∀ x ∈ L, x.chunk.Sound) :
    Text.startsBlank (body L) = false := by
  cases L with
  | nil => rfl
  | cons x L => exact (h x List.mem_cons_self).startsBlank_append _

theorem not_isBlank_body {x : Lexeme} (h : x.chunk.Sound) (L : List Lexeme) :
    ¬ (body (x :: L)).IsBlank :=
  fun hblank => h.not_isBlank_text fun c hc => hblank c (List.mem_append_left _ hc)

/-- Free lexemes make one token. -/
theorem freeTokens_body {L : List Lexeme} (h : ∀ x ∈ L, x.chunk.Sound) (hne : L ≠ []) :
    Text.freeTokens (body (L.map plain)) = [.str (body (L.map plain)).trimEnd] := by
  obtain ⟨x, L, rfl⟩ := List.exists_cons_of_ne_nil hne
  have hplain : ∀ y ∈ (x :: L).map plain, y.chunk.Sound := by
    intro y hy
    obtain ⟨z, hz, rfl⟩ := List.mem_map.1 hy
    exact h z hz
  have htrim : (body ((x :: L).map plain)).trimEnd ≠ [] := by
    obtain ⟨u, c, gap, heq, hc, hgap⟩ := (Text.exists_solid_end _).resolve_left
      (not_isBlank_body (hplain x.plain List.mem_cons_self) (L.map plain))
    rw [List.map_cons, heq, Text.trimEnd_solid_end hc hgap]
    simp
  rw [Text.freeTokens, Text.trim_eq_trimEnd (startsBlank_body hplain),
    if_neg (by rwa [List.isEmpty_iff])]

theorem map_token_ofRun {L : List Lexeme} (h : ∀ x ∈ L, x.chunk.Sound) (before : Text) :
    (Span.ofRun before L).map Span.token = Text.freeTokens (body (L.map plain)) := by
  by_cases hne : L = []
  · subst hne
    rfl
  · rw [freeTokens_body h hne, Span.ofRun, if_neg (by rwa [List.isEmpty_iff])]
    rfl

end Lexeme

theorem Mark.map_token_spansAfter {M : List Mark} (before : Text) {run : List Lexeme}
    (h : ∀ x ∈ run ++ M.flatMap source, x.chunk.Sound) :
    (spansAfter before run M).map Span.token = tokensAfter run M := by
  induction M generalizing before run with
  | nil =>
    rw [List.flatMap_nil, List.append_nil] at h
    rw [spansAfter, tokensAfter, Lexeme.map_token_ofRun h before]
  | cons m M ih =>
    cases m with
    | free x =>
      rw [spansAfter, tokensAfter, ih]
      rwa [List.append_assoc]
    | keyword src token =>
      have hrun : ∀ x ∈ run, x.chunk.Sound := fun x hx => h x (List.mem_append_left _ hx)
      have hrest : ∀ x ∈ [] ++ M.flatMap source, x.chunk.Sound := fun x hx =>
        h x (List.mem_append_right _ (List.mem_append_right _ hx))
      rw [spansAfter, tokensAfter, List.map_append, List.map_cons,
        Lexeme.map_token_ofRun hrun before, ih _ hrest]
      rfl

/-- The tokens of the spans of a text are the tokens of the text. -/
theorem Text.map_token_spans (t : Text) : t.spans.map Span.token = t.tokens := by
  rw [spans, tokens_eq_tokensAfter_marks, Mark.map_token_spansAfter]
  rw [List.nil_append, Scan.flatMap_source_marks]
  exact t.tight_toLexemes.sound

/-! ### Spans make up the text -/

namespace Lexeme

/-- The span of lexemes: what stands there is solid, and blank characters are left over. -/
theorem Tight.exists_isSolid_body {tail : Text} {x : Lexeme} {L : List Lexeme}
    (h : Tight tail (x :: L)) :
    ∃ gap : Text, gap.IsBlank ∧ (body (x :: L)).trimEnd.IsSolid ∧
      body (x :: L) = (body (x :: L)).trimEnd ++ gap := by
  obtain ⟨u, c, gap, heq, hc, hgap⟩ :=
    (body (x :: L)).exists_solid_end.resolve_left (not_isBlank_body h.2.1 L)
  have hstart : Text.startsBlank (body (x :: L)) = false := h.2.1.startsBlank_append _
  refine ⟨gap, hgap, ⟨?_, ?_⟩, ?_⟩
  · rw [heq] at hstart
    rw [heq, Text.trimEnd_solid_end hc hgap]
    cases u with
    | nil => exact ⟨c, [], rfl, hc⟩
    | cons b u => exact ⟨b, u ++ [c], rfl, hstart⟩
  · exact ⟨u, c, by rw [heq, Text.trimEnd_solid_end hc hgap], hc⟩
  · rw [heq, Text.trimEnd_solid_end hc hgap]

/-- The span of closed lexemes takes all of them. -/
theorem Tight.tile_cons {tail : Text} {L M : List Lexeme} (h : Tight tail (L ++ M)) (hne : L ≠ [])
    (hclosed : ∀ x ∈ L, x.chunk.Closed) {before : Text} {token : Token} {spans : List Span}
    (hspans : Span.Tile (before ++ Text.ofLexemes L []) spans (Text.ofLexemes M tail)) :
    Span.Tile before (Span.ofLexemes before L token :: spans) (Text.ofLexemes (L ++ M) tail) := by
  obtain ⟨x, L, rfl⟩ := List.exists_cons_of_ne_nil hne
  have htrim := h.left.trimEnd_body (h.left.finished hclosed)
  obtain ⟨-, -, hsolid, -⟩ := h.left.exists_isSolid_body
  have hrest : Text.ofLexemes (x :: L ++ M) tail =
      x.gap ++ ((body (x :: L)).trimEnd ++ Text.ofLexemes M tail) := by
    rw [htrim, Text.ofLexemes_append, ofLexemes_eq_gap_append_body]
    simp
  refine ⟨x.gap, Text.ofLexemes M tail, h.1, hsolid, hrest, rfl, ?_⟩
  rw [ofLexemes_eq_gap_append_body, List.append_nil, ← htrim, ← List.append_assoc] at hspans
  exact hspans

/-- The span of free lexemes takes all of them, but for blank characters at the end. -/
theorem Tight.tile_ofRun {tail : Text} {run : List Lexeme} (h : Tight tail run) (before : Text) :
    Span.Tile before (Span.ofRun before run) (Text.ofLexemes run tail) := by
  cases run with
  | nil => exact h
  | cons x run =>
    have htail : tail.IsBlank := by
      rw [← List.append_nil (x :: run)] at h
      exact h.right
    obtain ⟨gap, hgap, hsolid, hbody⟩ := h.exists_isSolid_body
    refine ⟨x.gap, gap ++ tail, h.1, hsolid, ?_, rfl, fun c hc => ?_⟩
    · rw [ofLexemes_eq_gap_append_body]
      conv => lhs; rw [hbody, List.append_assoc]
      rfl
    · rcases List.mem_append.1 hc with hc | hc
      · exact hgap c hc
      · exact htail c hc

theorem Tight.tile_ofRun_append {tail : Text} {run M : List Lexeme} (h : Tight tail (run ++ M))
    (hM : M ≠ []) {before : Text} {spans : List Span}
    (hspans : Span.Tile (before ++ Text.ofLexemes run []) spans (Text.ofLexemes M tail)) :
    Span.Tile before (Span.ofRun before run ++ spans) (Text.ofLexemes (run ++ M) tail) := by
  cases run with
  | nil => rwa [Text.ofLexemes_nil, List.append_nil] at hspans
  | cons x run => exact h.tile_cons (List.cons_ne_nil x run) (h.closed_left hM) hspans

end Lexeme

theorem Mark.tile_spansAfter {tail : Text} {M : List Mark} {s : Scan} (hM : s.Valid M)
    (before : Text) {run : List Lexeme}
    (h : Lexeme.Tight tail (run ++ M.flatMap source)) :
    Span.Tile before (spansAfter before run M)
      (Text.ofLexemes (run ++ M.flatMap source) tail) := by
  induction M generalizing s before run with
  | nil =>
    rw [List.flatMap_nil, List.append_nil] at h ⊢
    exact h.tile_ofRun before
  | cons m M ih =>
    cases m with
    | free x =>
      rw [append_flatMap_source_free] at h ⊢
      exact ih hM.2 before h
    | keyword src token =>
      have hne := hM.source_ne_nil
      have hsrc : Lexeme.Tight tail (src ++ M.flatMap source) := h.right
      have hclosed := hsrc.left.closed_of_hit? (Scan.hit?_eq_some hM.1).2
      have hrest : Lexeme.Tight tail ([] ++ M.flatMap source) := hsrc.right
      refine h.tile_ofRun_append (M := src ++ M.flatMap source) (by simp [hne]) ?_
      exact hsrc.tile_cons hne hclosed (ih hM.2 _ hrest)

/-- The spans of a text, with blank characters between them, make up the text. -/
theorem Text.tile_spans (t : Text) : Span.Tile [] t.spans t := by
  have h : Lexeme.Tight t.lastGap
      ([] ++ (Scan.start.marks t.toLexemes).flatMap Mark.source) := by
    rw [List.nil_append, Scan.flatMap_source_marks]
    exact t.tight_toLexemes
  have htile := Mark.tile_spansAfter (Scan.valid_marks .start t.toLexemes) [] h
  rwa [List.nil_append, Scan.flatMap_source_marks, ofLexemes_toLexemes] at htile

/-! ### The lexemes of a span -/

/-- What the lexemes of a span are: free text, or what a hit has taken. -/
def Span.ReadFrom (sp : Span) (L rest : List Lexeme) : Prop :=
  sp.token = .str (Lexeme.body (L.map Lexeme.plain)).trimEnd ∨
    Lexeme.hit? (L ++ rest) = some (L.length, sp.token)

theorem Span.exists_of_mem_ofRun {before : Text} {run : List Lexeme} {sp : Span}
    (h : sp ∈ ofRun before run) : run ≠ [] ∧
      sp = ofLexemes before run (.str (Lexeme.body (run.map Lexeme.plain)).trimEnd) := by
  unfold ofRun at h
  split at h
  · cases h
  · rename_i hne
    exact ⟨fun hnil => hne (List.isEmpty_iff.2 hnil), List.mem_singleton.1 h⟩

theorem Mark.exists_of_mem_spansAfter {M : List Mark} {s : Scan} (hM : s.Valid M)
    {before run : List Lexeme} (hbefore : Lexeme.depthAfter 0 before = 0)
    (hrun : Lexeme.depthAfter 0 run = s.depth) {sp : Span}
    (h : sp ∈ spansAfter (Text.ofLexemes before []) run M) :
    ∃ L₁ L L₂, before ++ run ++ M.flatMap source = L₁ ++ L ++ L₂ ∧ L ≠ [] ∧
      Lexeme.depthAfter 0 L₁ = 0 ∧ sp = Span.ofLexemes (Text.ofLexemes L₁ []) L sp.token ∧
      sp.ReadFrom L L₂ := by
  induction M generalizing s before run with
  | nil =>
    obtain ⟨hne, rfl⟩ := Span.exists_of_mem_ofRun h
    exact ⟨before, run, [], by simp, hne, hbefore, rfl, Or.inl rfl⟩
  | cons m M ih =>
    cases m with
    | free x =>
      have hrun : Lexeme.depthAfter 0 (run ++ [x]) = (s.next x).depth := by
        rw [Lexeme.depthAfter_append, hrun]
        rfl
      obtain ⟨L₁, L, L₂, heq, hne, hL₁, hsp, hread⟩ := ih hM.2 hbefore hrun h
      refine ⟨L₁, L, L₂, ?_, hne, hL₁, hsp, hread⟩
      rw [← heq]
      simp [source]
    | keyword src token =>
      obtain ⟨hdepth, hhit⟩ := Scan.hit?_eq_some hM.1
      have hsrc := Lexeme.inKeyword_of_hit? hhit
      have hne := hM.source_ne_nil
      have hfront : Lexeme.depthAfter 0 (before ++ run) = 0 := by
        rw [Lexeme.depthAfter_append, hbefore, hrun, hdepth]
      have hbehind : Lexeme.depthAfter 0 (before ++ run ++ src) = 0 := by
        rw [Lexeme.depthAfter_append, hfront, Lexeme.depthAfter_of_inKeyword hsrc]
      rw [spansAfter, ← Text.ofLexemes_append, ← Text.ofLexemes_append, List.mem_append,
        List.mem_cons] at h
      rcases h with h | rfl | h
      · obtain ⟨hne', rfl⟩ := Span.exists_of_mem_ofRun h
        exact ⟨before, run, src ++ M.flatMap source, by simp [source], hne', hbefore, rfl,
          Or.inl rfl⟩
      · exact ⟨before ++ run, src, M.flatMap source, by simp [source], hne, hfront, rfl,
          Or.inr hhit⟩
      · obtain ⟨L₁, L, L₂, heq, hne', hL₁, hsp, hread⟩ := ih hM.2 hbehind rfl h
        refine ⟨L₁, L, L₂, ?_, hne', hL₁, hsp, hread⟩
        rw [← heq]
        simp [source]

/-- The lexemes of a span stand among those of the text, in front of them no parenthesis is open,
and they have become the token of the span. -/
theorem Text.exists_of_mem_spans {t : Text} {sp : Span} (h : sp ∈ t.spans) :
    ∃ L₁ L L₂, t.toLexemes = L₁ ++ L ++ L₂ ∧ L ≠ [] ∧ Lexeme.depthAfter 0 L₁ = 0 ∧
      sp = Span.ofLexemes (ofLexemes L₁ []) L sp.token ∧ sp.ReadFrom L L₂ := by
  have h : sp ∈ Mark.spansAfter (ofLexemes [] []) [] (Scan.start.marks t.toLexemes) := h
  obtain ⟨L₁, L, L₂, heq, hspan⟩ :=
    Mark.exists_of_mem_spansAfter (Scan.valid_marks .start t.toLexemes) rfl rfl h
  refine ⟨L₁, L, L₂, ?_, hspan⟩
  rw [← heq, List.nil_append, List.nil_append, Scan.flatMap_source_marks]

end SqlLayout
