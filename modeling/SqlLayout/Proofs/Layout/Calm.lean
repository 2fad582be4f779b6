import SqlLayout.Proofs.Layout.Reflow
import SqlLayout.Proofs.Scan.Gaps

/-!
# Layouts that are read back

A layout puts new gaps in front of tokens, where a scan looks for a hit anyway, and behind the
commas of lists.  If nothing is found behind these commas, the layout has the marks of the statement
that has been laid out.  Its tokens differ in the gaps around the commas of lists, which do not
matter when lists are laid out again.

## Main definitions

* `Lexeme.Quiet` : a new gap at the start of lexemes makes no hit.
* `Mark.Calm` : new gaps behind the commas of lists make no hits.

## Main results

* `Mark.regapped_reflow` : calm marks with new gaps are marks with other gaps.
* `Page.addAll_reflow` : the tokens of marks with new gaps are laid out as those of the marks.
-/

namespace SqlLayout

/-- A new gap at the start of lexemes makes no hit: there is a gap already, or nothing is found. -/
def Lexeme.Quiet (L : List Lexeme) : Prop := (∀ x ∈ L.head?, x.gap ≠ []) ∨ hit? L = none

namespace Mark

/-- New gaps behind the commas of lists make no hits, where `context` is the kind of the latest
clause or join. -/
def Calm (context : Option Kind) : Nat → List Mark → Prop
  | _, [] => True
  | d, free x :: M =>
    ((context.any Kind.listsItems && x.separates d) = true → Lexeme.Quiet (M.flatMap source)) ∧
      Calm context (x.chunk.depthAfter d) M
  | _, keyword _ token :: M => Calm (token.kind.contextAfter context) 0 M

theorem regapped_respaced (lists : Bool) (d : Nat) (fresh : Bool) (x : Lexeme) :
    x.Regapped (x.respaced lists d fresh) := by
  refine ⟨rfl, fun hx hnil => ?_⟩
  cases fresh with
  | true => cases hnil
  | false =>
    cases hsep : lists && x.separates d with
    | true => exact (Lexeme.chunk_of_separates (Bool.and_eq_true_iff.1 hsep).2).2
    | false =>
      simp only [Lexeme.respaced, hsep, Bool.false_eq_true, if_false] at hnil
      exact absurd (Lexeme.plain_gap_eq_nil_iff.1 hnil) hx

/-- No gap is new where no token and no item begins. -/
theorem gap_of_respaced {lists : Bool} {d : Nat} {x : Lexeme} (hx : x.gap = []) :
    (x.respaced lists d false).gap = [] := by
  have hplain := Lexeme.plain_gap_eq_nil_iff.2 hx
  simp only [Lexeme.respaced, Bool.false_eq_true, if_false, hplain, ite_self]

/-- Calm marks with new gaps are marks with other gaps. -/
theorem regapped_reflow {context : Option Kind} {s : Scan} {fresh : Bool} {M : List Mark}
    (hcalm : Calm context s.depth M)
    (hfresh : fresh = true → s.ready = true ∨ Lexeme.Quiet (M.flatMap source)) :
    s.Regapped M (reflow context s.depth fresh M) := by
  induction M generalizing context s fresh with
  | nil => trivial
  | cons m M ih =>
    cases m with
    | free x =>
      obtain ⟨hquiet, hcalm⟩ := hcalm
      refine ⟨regapped_respaced _ _ _ x, fun _ hx hy => ?_, ih (s := s.next x) hcalm fun h =>
        Or.inr (hquiet h)⟩
      cases fresh with
      | false => exact absurd (gap_of_respaced hx) hy
      | true =>
        rcases hfresh rfl with hready | hgap | hnone
        · exact Or.inl hready
        · exact absurd hx (hgap x rfl)
        · exact Or.inr hnone
    | keyword src token =>
      exact ⟨rfl, Lexeme.forall₂_regapped_setOff src, Lexeme.bare_map_plain_setOff src,
        ih (s := .start) hcalm fun _ => Or.inl rfl⟩

/-- Calm marks with new gaps are the marks of their lexemes. -/
theorem marks_reflow {context : Option Kind} {M : List Mark} (hM : Scan.start.Valid M)
    (hcalm : Calm context 0 M) :
    Scan.start.marks ((reflow context 0 true M).flatMap source) = reflow context 0 true M :=
  (hM.of_regapped (regapped_reflow (s := .start) hcalm fun _ => Or.inl rfl)).marks_eq

end Mark

/-! ### Tokens with new gaps -/

namespace Lexeme

theorem body_map_plain_setOff (L : List Lexeme) :
    body ((setOff L).map plain) = body (L.map plain) := by
  rw [← body_bare, bare_map_plain_setOff, body_bare]

/-- New gaps leave the items of a list as they are. -/
theorem Tight.items_respace {run : List Lexeme} (h : Tight [] run) (hrun : Finished run)
    (h' : Tight [] (respace true 0 true run)) :
    (body ((respace true 0 true run).map plain)).items = (body (run.map plain)).items := by
  have hrun' : Finished (respace true 0 true run) :=
    hrun.congr (map_chunk_respace true 0 true run).symm
  rw [h.map_plain.items_body (hrun.congr (map_chunk_map_plain _).symm),
    h'.map_plain.items_body (hrun'.congr (map_chunk_map_plain _).symm),
    pieces_map_plain, pieces_map_plain, pieces_respace, if_pos rfl]
  simp [Function.comp_def, body_map_plain_setOff]

end Lexeme

namespace Page

/-- Free lexemes with new gaps are laid out as they are without them. -/
theorem addAll_freeTokens_respace (i : Indent) (p : Page) {run : List Lexeme}
    (h : Lexeme.Tight [] run) (hrun : Lexeme.Finished run)
    (h' : Lexeme.Tight [] (Lexeme.respace (p.context.any Kind.listsItems) 0 true run)) :
    p.addAll i (Text.freeTokens (Lexeme.body
        ((Lexeme.respace (p.context.any Kind.listsItems) 0 true run).map Lexeme.plain))) =
      p.addAll i (Text.freeTokens (Lexeme.body (run.map Lexeme.plain))) := by
  cases hlist : p.context.any Kind.listsItems with
  | false => rw [Lexeme.respace_false_true, Lexeme.body_map_plain_setOff]
  | true =>
    rw [hlist] at h'
    by_cases hne : run = []
    · rw [hne]
      rfl
    · have hne' : Lexeme.respace true 0 true run ≠ [] := by
        obtain ⟨x, run, rfl⟩ := List.exists_cons_of_ne_nil hne
        exact List.cons_ne_nil _ _
      have hrun' : Lexeme.Finished (Lexeme.respace true 0 true run) :=
        hrun.congr (Lexeme.map_chunk_respace true 0 true run).symm
      rw [Lexeme.freeTokens_body h.sound hne, Lexeme.freeTokens_body h'.sound hne',
        h.map_plain.trimEnd_body (hrun.congr (Lexeme.map_chunk_map_plain _).symm),
        h'.map_plain.trimEnd_body (hrun'.congr (Lexeme.map_chunk_map_plain _).symm),
        addAll_singleton, addAll_singleton]
      simp only [add, Token.str, showsList_eq, hlist, if_true, h.items_respace hrun h']

/-- The tokens of marks with new gaps are laid out as those of the marks, behind free lexemes that
are not yet in a token. -/
theorem addAll_reflow (i : Indent) (p : Page) {s : Scan} {M : List Mark} (hM : s.Valid M)
    {run : List Lexeme} (h : Lexeme.Tight [] (run ++ M.flatMap Mark.source))
    (hfinished : Lexeme.Finished (run ++ M.flatMap Mark.source))
    (h' : Lexeme.Tight []
      ((Mark.reflow p.context 0 true (run.map Mark.free ++ M)).flatMap Mark.source)) :
    p.addAll i (Mark.tokensAfter [] (Mark.reflow p.context 0 true (run.map Mark.free ++ M))) =
      p.addAll i (Mark.tokensAfter run M) := by
  induction M generalizing p s run with
  | nil =>
    rw [List.flatMap_nil, List.append_nil] at h hfinished
    rw [List.append_nil, Mark.reflow_map_free] at h' ⊢
    rw [Mark.flatMap_source_map_free] at h'
    have hfree := Mark.tokensAfter_map_free_append []
      (Lexeme.respace (p.context.any Kind.listsItems) 0 true run) []
    rw [List.append_nil, List.nil_append] at hfree
    rw [hfree]
    exact addAll_freeTokens_respace i p h hfinished h'
  | cons m M ih =>
    cases m with
    | free x =>
      rw [Mark.append_flatMap_source_free] at h hfinished
      rw [Mark.map_free_append_free] at h' ⊢
      exact ih p hM.2 h hfinished h'
    | keyword src token =>
      have hne : src ++ M.flatMap Mark.source ≠ [] :=
        List.append_ne_nil_of_left_ne_nil hM.source_ne_nil _
      have hrun : Lexeme.Finished run := h.left.finished (h.closed_left hne)
      have hsrc : Lexeme.Tight [] (src ++ M.flatMap Mark.source) := h.right
      rw [Mark.reflow_append_keyword] at h' ⊢
      rw [List.flatMap_append, Mark.flatMap_source_map_free] at h'
      have hbehind : Lexeme.Tight [] (Lexeme.setOff src ++
          (Mark.reflow (token.kind.contextAfter p.context) 0 true M).flatMap Mark.source) :=
        h'.right
      have hstep (q : Page) (hq : q.context = p.context) :
          q.addAll i (token :: Mark.tokensAfter []
            (Mark.reflow (token.kind.contextAfter p.context) 0 true M)) =
          q.addAll i (token :: Mark.tokensAfter [] M) := by
        have hcontext := context_add i q token
        rw [hq] at hcontext
        have htight : Lexeme.Tight [] ([] ++ M.flatMap Mark.source) := hsrc.right
        have hrest := ih (q.add i token).2 hM.2 htight hfinished.right.right (by
          rw [hcontext]
          exact hbehind.right)
        rw [hcontext] at hrest
        exact congrArg (fun r => ((q.add i token).1 ++ r.1, r.2)) hrest
      rw [Mark.tokensAfter_map_free_append, List.nil_append, Mark.tokensAfter, Mark.tokensAfter,
        addAll_append, addAll_append, addAll_freeTokens_respace i p h.left hrun h'.left,
        hstep _ (context_addAll_freeTokens i p _)]

end Page

end SqlLayout
