import SqlLayout.Proofs.Scan.Spans
import SqlLayout.Proofs.Text.Flow

/-!
# Texts that end at the top level

Behind some texts no quoted region and no parenthesis is open, so what follows is read as if it
stood alone.  Among lexemes this says that all of them are closed, and that their parentheses are.
A keyword token is such a text, and so is free text with a keyword token behind it, since a keyword
token is found at the top level only.  So among tokens only the last can be left open.

## Main definitions

* `Text.Complete` : behind a text nothing is open.
* `Token.OpenOnlyLast` : only the last of some tokens is left open, if any.

## Main results

* `Text.complete_intercalate` : complete texts with blank characters between them are complete.
* `Lexeme.Tight.complete_ofLexemes_iff` : complete texts by their lexemes.
* `Text.openOnlyLast_tokens` : only the last token of a text is left open, if any.
-/

namespace SqlLayout

namespace Text

/-- A text behind which no quoted region and no parenthesis is open. -/
def Complete (t : Text) : Prop := Nesting.start.after t = .start

instance (t : Text) : Decidable t.Complete :=
  inferInstanceAs (Decidable (Nesting.start.after t = .start))

theorem complete_nil : Complete [] := rfl

theorem Complete.append {t u : Text} (ht : t.Complete) (hu : u.Complete) : (t ++ u).Complete := by
  have ht : Nesting.start.after t = .start := ht
  rw [Complete, Nesting.after_append, ht]
  exact hu

/-- What stands behind a complete text is complete if both together are. -/
theorem Complete.right {t u : Text} (ht : t.Complete) (h : (t ++ u).Complete) : u.Complete := by
  have ht : Nesting.start.after t = .start := ht
  rwa [Complete, Nesting.after_append, ht] at h

theorem Complete.closed {t : Text} (h : t.Complete) : t.Closed := by
  have hquoting := congrArg Nesting.quoting (show Nesting.start.after t = .start from h)
  rwa [Nesting.quoting_after] at hquoting

theorem complete_of_isBlank {gap : Text} (h : gap.IsBlank) : gap.Complete :=
  Nesting.after_of_isBlank h 0

/-- Complete texts with blank characters between them are complete. -/
theorem complete_intercalate {gap : Text} (hgap : gap.IsBlank) {parts : List Text}
    (h : ∀ t ∈ parts, t.Complete) : Complete (gap.intercalate parts) := by
  induction parts with
  | nil => exact complete_nil
  | cons t parts ih =>
    obtain ⟨ht, hparts⟩ := List.forall_mem_cons.1 h
    cases parts with
    | nil => rwa [List.intercalate_singleton]
    | cons u parts =>
      rw [List.intercalate_cons_cons]
      exact (ht.append (complete_of_isBlank hgap)).append (ih hparts)

end Text

namespace Lexeme

/-- Gaps do not matter to the number of open parentheses. -/
theorem depthAfter_congr {L M : List Lexeme} (h : L.map chunk = M.map chunk) (d : Nat) :
    depthAfter d L = depthAfter d M := by
  have hchunks (K : List Lexeme) :
      depthAfter d K = (K.map chunk).foldl (fun d chunk => chunk.depthAfter d) d :=
    List.foldl_map.symm
  rw [hchunks, h, ← hchunks]

/-- Behind lexemes nothing is open exactly if all of them are closed, and their parentheses are. -/
theorem Tight.complete_ofLexemes_iff {tail : Text} {L : List Lexeme} (h : Tight tail L) :
    (Text.ofLexemes L tail).Complete ↔ (∀ x ∈ L, x.chunk.Closed) ∧ depthAfter 0 L = 0 := by
  have hsplit : Text.ofLexemes L tail = Text.ofLexemes L [] ++ tail := by simp [Text.ofLexemes]
  have hafter (hclosed : ∀ x ∈ L, x.chunk.Closed) :
      Nesting.start.after (Text.ofLexemes L tail) = ⟨.outside, depthAfter 0 L⟩ := by
    rw [hsplit, Nesting.after_append, Nesting.start, h.nesting_after hclosed,
      Nesting.after_of_isBlank h.isBlank_tail]
  constructor
  · intro hcomplete
    have hclosed := (Text.closed_ofLexemes_iff h).1 hcomplete.closed
    exact ⟨hclosed, congrArg Nesting.depth ((hafter hclosed).symm.trans hcomplete)⟩
  · rintro ⟨hclosed, hdepth⟩
    rw [Text.Complete, hafter hclosed, hdepth]
    rfl

/-- Free text is complete if its lexemes are. -/
theorem Tight.complete_body {L : List Lexeme} (h : Tight [] L) (hclosed : ∀ x ∈ L, x.chunk.Closed)
    (hdepth : depthAfter 0 L = 0) : (body (L.map plain)).Complete := by
  have hplain : (Lexeme.bare (L.map plain)).map chunk = L.map chunk :=
    (map_chunk_bare _).trans (map_chunk_map_plain L)
  rw [body_eq_ofLexemes, h.map_plain.bare.complete_ofLexemes_iff]
  exact ⟨forall_closed_congr hclosed hplain.symm, (depthAfter_congr hplain 0).trans hdepth⟩

end Lexeme

/-- The flow of a complete text leaves nothing open. -/
theorem Text.Complete.depthAfter_flow {t : Text} (h : t.Complete) :
    Lexeme.depthAfter 0 t.flow = 0 := by
  have hlexemes := t.tight_toLexemes.complete_ofLexemes_iff
  rw [ofLexemes_toLexemes] at hlexemes
  rw [flow, Lexeme.depthAfter_congr (Lexeme.map_chunk_setOff _), (hlexemes.1 h).2]

/-! ### Tokens -/

/-- Only the last of some tokens is left open, if any, and only if it is free text. -/
def Token.OpenOnlyLast : List Token → Prop
  | [] => True
  | t :: ts => (t.text.Complete ∨ t.kind = .str ∧ ts = []) ∧ OpenOnlyLast ts

theorem Token.OpenOnlyLast.append {ts us : List Token} (ht : ∀ t ∈ ts, t.text.Complete)
    (hu : OpenOnlyLast us) : OpenOnlyLast (ts ++ us) := by
  induction ts with
  | nil => exact hu
  | cons t ts ih =>
    obtain ⟨ht, hts⟩ := List.forall_mem_cons.1 ht
    exact ⟨Or.inl ht, ih hts⟩

theorem Token.OpenOnlyLast.complete_of_mem_dropLast {ts : List Token} (h : OpenOnlyLast ts) :
    ∀ t ∈ ts.dropLast, t.text.Complete := by
  induction ts with
  | nil => exact List.forall_mem_nil _
  | cons t ts ih =>
    obtain ⟨ht, hts⟩ := h
    cases ts with
    | nil => exact List.forall_mem_nil _
    | cons u ts =>
      have ht := ht.resolve_right fun hlast => List.cons_ne_nil u ts hlast.2
      rw [List.dropLast_cons_of_ne_nil (List.cons_ne_nil u ts)]
      exact List.forall_mem_cons.2 ⟨ht, ih hts⟩

theorem Text.openOnlyLast_freeTokens (free : Text) : Token.OpenOnlyLast free.freeTokens := by
  rw [freeTokens]
  split
  · trivial
  · exact ⟨Or.inr ⟨rfl, rfl⟩, trivial⟩

namespace Lexeme

/-- A keyword token opens nothing. -/
theorem complete_of_hit? {L : List Lexeme} {n : Nat} {token : Token}
    (h : hit? L = some (n, token)) : token.text.Complete := by
  rcases exists_of_hit? h with ⟨s, hs, -, -, rfl⟩ | ⟨f, p, hp, -, -, rfl⟩
  · have key : ∀ s ∈ Family.comparison.symbols, s.Complete := by decide
    exact key s hs
  · have key : ∀ f : Family, ∀ p ∈ f.phrases, p.text.Complete := by
      intro f
      cases f <;> decide
    exact key f p hp

theorem Tight.complete_of_mem_freeTokens {L : List Lexeme} (h : Tight [] L)
    (hclosed : ∀ x ∈ L, x.chunk.Closed) (hdepth : depthAfter 0 L = 0) :
    ∀ t ∈ Text.freeTokens (body (L.map plain)), t.text.Complete := by
  cases L with
  | nil => exact List.forall_mem_nil _
  | cons x L =>
    have hplain := forall_closed_congr hclosed (map_chunk_map_plain (x :: L)).symm
    rw [freeTokens_body h.sound (List.cons_ne_nil x L),
      h.map_plain.trimEnd_body (h.map_plain.finished hplain), List.forall_mem_singleton]
    exact h.complete_body hclosed hdepth

end Lexeme

namespace Mark

/-- Only the last token of marks is left open, behind free lexemes that are not yet in a token. -/
theorem openOnlyLast_tokensAfter {s : Scan} {M : List Mark} (hM : s.Valid M) {run : List Lexeme}
    (h : Lexeme.Tight [] (run ++ M.flatMap source)) (hdepth : Lexeme.depthAfter 0 run = s.depth) :
    Token.OpenOnlyLast (tokensAfter run M) := by
  induction M generalizing s run with
  | nil => exact Text.openOnlyLast_freeTokens _
  | cons m M ih =>
    cases m with
    | free x =>
      rw [append_flatMap_source_free] at h
      refine ih hM.2 h ?_
      rw [Lexeme.depthAfter_append, hdepth]
      rfl
    | keyword src token =>
      -- in front of a keyword token all quotes and parentheses are closed
      obtain ⟨hd, hhit⟩ := Scan.hit?_eq_some hM.1
      have hclosed := h.closed_left (flatMap_source_ne_nil hM)
      have hbehind : Lexeme.Tight [] ([] ++ M.flatMap source) :=
        Lexeme.Tight.right (L := src) h.right
      refine .append (h.left.complete_of_mem_freeTokens hclosed (hdepth.trans hd)) ?_
      exact ⟨Or.inl (Lexeme.complete_of_hit? hhit), ih hM.2 hbehind rfl⟩

end Mark

/-- Only the last token of a text is left open, if any. -/
theorem Text.openOnlyLast_tokens (t : Text) : Token.OpenOnlyLast t.tokens := by
  rw [tokens_eq_tokensAfter_marks]
  exact Mark.openOnlyLast_tokensAfter (Scan.valid_marks .start _)
    (t.tight_toLexemes.without_tail.flatMap_source_marks .start) rfl

end SqlLayout
