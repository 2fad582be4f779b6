import SqlLayout.Proofs.Text.Ends

/-!
# The flow of texts

Where lines break and how wide gaps are does not matter to a reader of lexemes.  The flow of a text
keeps only whether there is a gap in front of a lexeme, and the first lexeme always has one, as if
the text stood on a line of its own.  So the flow of lines is the flow of one behind the other.

## Main definitions

* `Text.flow` : the lexemes of a text in this form.
* `Text.Closed` : a text that ends outside of quotes.

## Main results

* `Text.Closed.flow_append` : texts with a gap between them flow one behind the other.
* `Text.flow_intercalate` : the flow of texts that are joined.
-/

namespace SqlLayout

namespace Text

/-- The lexemes of a text with one space for each gap, and one in front of the first lexeme. -/
def flow (t : Text) : List Lexeme := Lexeme.setOff t.toLexemes

@[simp] theorem flow_nil : flow [] = [] := rfl

theorem map_chunk_flow (t : Text) : t.flow.map Lexeme.chunk = t.lexemes := by
  rw [flow, Lexeme.map_chunk_setOff, lexemes_eq_map_chunk]

/-- A text that ends outside of quotes. -/
def Closed (t : Text) : Prop := Quoting.outside.after t = .outside

theorem Closed.append {t u : Text} (ht : t.Closed) (hu : u.Closed) : (t ++ u).Closed := by
  have ht : Quoting.outside.after t = .outside := ht
  rw [Closed, Quoting.after_append, ht]
  exact hu

theorem closed_of_isBlank {gap : Text} (h : gap.IsBlank) : gap.Closed :=
  after_isBlank h .outside rfl

theorem closed_ofLexemes_iff {tail : Text} {L : List Lexeme} (h : Lexeme.Tight tail L) :
    (ofLexemes L tail).Closed ↔ ∀ x ∈ L, x.chunk.Closed :=
  after_ofLexemes_eq_outside_iff h

/-- Blank characters in front of a text do not matter to its flow. -/
theorem flow_gap_append {gap : Text} (h : gap.IsBlank) (t : Text) : (gap ++ t).flow = t.flow := by
  rw [flow, toLexemes_gap_append h, Lexeme.setOff_widen, flow]

/-- Texts with a gap between them flow one behind the other. -/
theorem Closed.flow_append {t : Text} (ht : t.Closed) {c : Char} (hc : isBlank c = true)
    (u : Text) : (t ++ c :: u).flow = t.flow ++ u.flow := by
  have hgap : IsBlank [c] := fun b hb => by rwa [List.mem_singleton.1 hb]
  have hword : Keyword.continuesWord (c :: u) = false := isWordChar_of_isBlank hc
  rw [flow, toLexemes_append ht hword, ← List.singleton_append,
    toLexemes_gap_append hgap]
  cases hL : t.toLexemes with
  | nil => rw [List.nil_append, Lexeme.setOff_widen, Lexeme.setOff_widen, flow, hL, flow]; rfl
  | cons x L =>
    have hwiden : Lexeme.widen t.lastGap (Lexeme.widen [c] u.toLexemes) =
        Lexeme.widen (t.lastGap ++ [c]) u.toLexemes := by
      cases u.toLexemes <;> simp [Lexeme.widen]
    rw [Lexeme.setOff_append (List.cons_ne_nil x L), hwiden, Lexeme.map_plain_widen (by simp),
      flow, flow, hL]

/-- Texts with a blank character between them flow one behind the other, if all of them but the last
end outside of quotes. -/
theorem flow_intercalate {c : Char} (hc : isBlank c = true) {parts : List Text}
    (h : ∀ t ∈ parts.dropLast, t.Closed) : flow ([c].intercalate parts) = parts.flatMap flow := by
  induction parts with
  | nil => rfl
  | cons t parts ih =>
    cases parts with
    | nil => simp
    | cons u parts =>
      rw [List.dropLast_cons_of_ne_nil (List.cons_ne_nil u parts)] at h
      rw [List.intercalate_cons_cons, List.append_assoc, List.singleton_append,
        (h t List.mem_cons_self).flow_append hc, ih fun v hv => h v (List.mem_cons_of_mem t hv)]
      rfl

end Text

namespace Lexeme

/-- Gaps do not matter to whether lexemes are closed. -/
theorem forall_closed_congr {L M : List Lexeme} (h : ∀ x ∈ L, x.chunk.Closed)
    (heq : L.map chunk = M.map chunk) : ∀ x ∈ M, x.chunk.Closed := by
  intro x hx
  have hmem := List.mem_map_of_mem (f := chunk) hx
  rw [← heq] at hmem
  obtain ⟨y, hy, hchunk⟩ := List.mem_map.1 hmem
  exact hchunk ▸ h y hy

theorem Tight.toLexemes_body {L : List Lexeme} (h : Tight [] L) :
    (body L).toLexemes = Lexeme.bare L := by
  rw [body_eq_ofLexemes, Text.toLexemes_ofLexemes h.bare]

theorem Tight.flow_body {L : List Lexeme} (h : Tight [] L) : (body L).flow = setOff L := by
  rw [Text.flow, h.toLexemes_body]
  cases L <;> rfl

theorem Tight.closed_body {L : List Lexeme} (h : Tight [] L) (hL : ∀ x ∈ L, x.chunk.Closed) :
    (body L).Closed := by
  rw [body_eq_ofLexemes, Text.closed_ofLexemes_iff h.bare]
  exact forall_closed_congr hL (map_chunk_bare L).symm

end Lexeme

end SqlLayout
