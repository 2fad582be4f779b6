import SqlLayout.Proofs.Layout.Readback

/-!
# Layouts are stable

Laying out a statement puts gaps behind the commas of its lists.  A hit may be found there that was
none in the statement, as that of `FROM` in `SELECT a,FROM t`, and then the layout of the layout is
another one.  But all gaps that matter are there by then, so a third layout changes nothing; and the
second one does not either if nothing is found directly behind a comma.

## Main definitions

* `Text.Calm` : nothing is found directly behind the commas at the top level.
* `Lexeme.Calm` : the same of lexemes.

## Main results

* `Statement.reformat_reformat_of_calm` : a layout of calm marks is laid out as it is.
* `reformat_stable` : a layout of a layout is laid out as it is, and so is that of a calm statement.
-/

namespace SqlLayout

/-! ### Calm statements -/

/-- Nothing is found directly behind a comma at the top level.  Nothing is found where a text begins
with a blank character, so commas with a gap behind them do no harm. -/
def Text.Calm (t : Text) : Prop :=
  ∀ before after : Text, t = before ++ ',' :: after →
    (Nesting.start.after before).isTop = true → after.hasHit = false

theorem Text.calm_iff_forall_lt {t : Text} :
    t.Calm ↔ ∀ n < t.length, t[n]? = some ',' →
      (Nesting.start.after (t.take n)).isTop = true → hasHit (t.drop (n + 1)) = false := by
  constructor
  · intro h n hn hcomma htop
    refine h (t.take n) (t.drop (n + 1)) ?_ htop
    obtain ⟨hn, hget⟩ := List.getElem?_eq_some_iff.1 hcomma
    rw [← hget, List.getElem_cons_drop, List.take_append_drop]
  · rintro h before after rfl htop
    have hbehind := h before.length (by simp) (by simp) (by simpa using htop)
    simpa using hbehind

instance (t : Text) : Decidable t.Calm :=
  decidable_of_iff _ Text.calm_iff_forall_lt.symm

/-- Behind commas at the top level lexemes are quiet, where `d` is the number of open
parentheses. -/
def Lexeme.Calm : Nat → List Lexeme → Prop
  | _, [] => True
  | d, x :: L => (x.separates d = true → Quiet L) ∧ Calm (x.chunk.depthAfter d) L

namespace Lexeme

theorem Calm.right {d : Nat} {L M : List Lexeme} (h : Calm d (L ++ M)) :
    Calm (depthAfter d L) M := by
  induction L generalizing d with
  | nil => exact h
  | cons x L ih => exact ih h.2

/-- The lexemes of a calm text are calm behind some of them. -/
theorem Tight.calm {P L : List Lexeme} (h : Tight [] (P ++ L))
    (hcalm : (Text.ofLexemes (P ++ L) []).Calm) : Calm (depthAfter 0 P) L := by
  induction L generalizing P with
  | nil => trivial
  | cons x L ih =>
    have happend : P ++ x :: L = P ++ [x] ++ L := by simp
    refine ⟨fun hsep => ?_, ?_⟩
    · -- in front of the comma all quotes and parentheses are closed
      obtain ⟨hd, hcomma⟩ := chunk_of_separates hsep
      have hx : Tight [] (x :: L) := h.right
      have htop : (Nesting.start.after (Text.ofLexemes P [] ++ x.gap)).isTop = true := by
        rw [h.nesting_in_front, hd]
        rfl
      have hhit := hcalm (Text.ofLexemes P [] ++ x.gap) (Text.ofLexemes L [])
        (by simp [Text.ofLexemes, text, hcomma, Chunk.text]) htop
      cases L with
      | nil => exact Or.inl fun y hy => by cases hy
      | cons y L =>
        by_cases hgap : y.gap = []
        · have hbody := hx.2.2.2.2.hit?_body
          rw [ofLexemes_eq_gap_append_body, hgap, List.nil_append, Text.hasHit, hbody,
            Option.isSome_map, Option.isSome_eq_false_iff, Option.isNone_iff_eq_none] at hhit
          exact Or.inr hhit
        · refine Or.inl fun z hz => ?_
          obtain rfl := Option.some.inj hz
          exact hgap
    · rw [happend] at h hcalm
      have hbehind := ih h hcalm
      rwa [depthAfter_append] at hbehind

end Lexeme

namespace Mark

/-- The marks of calm lexemes are calm. -/
theorem calm_of_calm {context : Option Kind} {s : Scan} {M : List Mark} (hM : s.Valid M)
    (h : Lexeme.Calm s.depth (M.flatMap source)) : Calm context s.depth M := by
  induction M generalizing context s with
  | nil => trivial
  | cons m M ih =>
    cases m with
    | free x => exact ⟨fun hsep => h.1 (Bool.and_eq_true_iff.1 hsep).2, ih hM.2 h.2⟩
    | keyword src token =>
      obtain ⟨hd, hhit⟩ := Scan.hit?_eq_some hM.1
      have hbehind := Lexeme.Calm.right (L := src) h
      rw [Lexeme.depthAfter_of_inKeyword (Lexeme.inKeyword_of_hit? hhit), hd] at hbehind
      exact ih (s := .start) hM.2 hbehind

/-! ### The width of gaps -/

theorem quiet_of_map_plain {L : List Lexeme} (h : Lexeme.Quiet (L.map Lexeme.plain)) :
    Lexeme.Quiet L := by
  refine h.imp (fun hgap x hx hnil => ?_) fun hnone => ?_
  · refine hgap x.plain ?_ (Lexeme.plain_gap_eq_nil_iff.2 hnil)
    rw [List.head?_map, Option.mem_def.1 hx]
    rfl
  · have hhit := Lexeme.hit?_congr (Lexeme.forall₂_regapped_map_plain L) fun s _ _ hadjoins => by
      rwa [Lexeme.bare_map_plain, Lexeme.adjoins_map_plain]
    rw [← hhit, hnone]

theorem calm_of_map_plain {context : Option Kind} {d : Nat} {M : List Mark}
    (h : Calm context d (M.map plain)) : Calm context d M := by
  induction M generalizing context d with
  | nil => trivial
  | cons m M ih =>
    cases m with
    | free x =>
      refine ⟨fun hsep => quiet_of_map_plain ?_, ih h.2⟩
      rw [← flatMap_source_map_plain]
      exact h.1 hsep
    | keyword src token =>
      have h : Calm (token.kind.contextAfter context) 0 (M.map plain) := h
      exact ih h

/-- The width of gaps, and the first gap, do not matter to whether marks are calm. -/
theorem calm_of_setOff {context : Option Kind} {d : Nat} {M : List Mark}
    (h : Calm context d (setOff M)) : Calm context d M := by
  cases M with
  | nil => trivial
  | cons m M =>
    cases m with
    | free x => exact calm_of_map_plain (M := free x :: M) h
    | keyword src token => exact calm_of_map_plain (M := keyword src token :: M) h

end Mark

/-! ### Layouts of layouts -/

namespace Statement

/-- A layout of calm marks is laid out as it is. -/
theorem reformat_reformat_of_calm (i : Indent) {raw : Text} {L : List Lexeme}
    (hL : Lexeme.Clean L) (hsql : (ofText raw).sql = Text.ofLexemes L [])
    (hcalm : Mark.Calm none 0 (Scan.start.marks L)) :
    reformat i (reformat i raw) = reformat i raw := by
  obtain ⟨K, hK, hread, hsetOff⟩ := exists_readback i hL hsql
  have hvalid := Scan.valid_marks .start L
  have hflat := Scan.flatMap_source_marks .start L
  have htokens : (Text.ofLexemes K []).tokens =
      Mark.tokensAfter [] (Mark.reflow none 0 true (Scan.start.marks L)) := by
    rw [Text.tokens_eq_tokensAfter_flow, Text.flow, Text.toLexemes_ofLexemes hK.tight, hsetOff,
      Mark.marks_reflow hvalid hcalm]
  have htight : Lexeme.Tight []
      ((Mark.reflow none 0 true (Scan.start.marks L)).flatMap Mark.source) :=
    hsetOff ▸ hK.tight.tight_setOff
  have hlaid : Page.blank.addAll i (Text.ofLexemes K []).tokens =
      Page.blank.addAll i (Text.ofLexemes L []).tokens := by
    rw [htokens, Text.tokens_eq_tokensAfter_marks, Text.toLexemes_ofLexemes hL.tight]
    have hmarks : Lexeme.Tight [] ([] ++ (Scan.start.marks L).flatMap Mark.source) := by
      rw [List.nil_append, hflat]
      exact hL.tight
    refine Page.addAll_reflow i .blank hvalid hmarks ?_ htight
    rw [List.nil_append, hflat]
    exact hL.finished
  have hlines : Page.lines i (Text.ofLexemes K []).tokens =
      Page.lines i (Text.ofLexemes L []).tokens := by
    rw [Page.lines, hlaid, Page.lines]
  rw [reformat, hread, Page.print, hlines, ← hsql]
  rfl

/-- The marks of a layout are calm. -/
theorem calm_of_readback {L K : List Lexeme}
    (h : Lexeme.setOff K =
      (Mark.reflow none 0 true (Scan.start.marks L)).flatMap Mark.source) :
    Mark.Calm none 0 (Scan.start.marks K) := by
  have hcalm := Mark.calm_marks_reflow (Scan.valid_marks .start L)
  rw [← h, Scan.marks_setOff] at hcalm
  exact Mark.calm_of_setOff hcalm

end Statement

/-- A layout of a layout is laid out as it is.  So is the layout of a statement in which nothing is
found directly behind a comma at the top level. -/
theorem reformat_stable (i : Indent) (raw : Text) :
    reformat i (reformat i (reformat i raw)) = reformat i (reformat i raw) ∧
      ((Statement.ofText raw).sql.Calm → reformat i (reformat i raw) = reformat i raw) := by
  obtain ⟨L, hL, hsql⟩ := Statement.exists_clean raw
  obtain ⟨K, hK, hread, hsetOff⟩ := Statement.exists_readback i hL hsql
  constructor
  · refine Statement.reformat_reformat_of_calm i hK ?_ (Statement.calm_of_readback hsetOff)
    rw [hread]
  · intro hcalm
    refine Statement.reformat_reformat_of_calm i hL hsql ?_
    rw [hsql] at hcalm
    have hlexemes := Lexeme.Tight.calm (P := []) hL.tight hcalm
    refine Mark.calm_of_calm (s := .start) (Scan.valid_marks .start L) ?_
    rwa [Scan.flatMap_source_marks]

/-- The layout of a statement with a gap behind its comma. -/
theorem reformat_stable_select_list :
    (Statement.ofText "select a, b from t".toList).sql.Calm ∧
      reformat .usual (reformat .usual "select a, b from t".toList) =
        reformat .usual "select a, b from t".toList :=
  ⟨by decide +kernel, (reformat_stable .usual "select a, b from t".toList).2 (by decide +kernel)⟩

/-- A clause that begins directly behind a comma is found in the layout only. -/
example : reformat .usual (reformat .usual "select a,from t".toList) ≠
    reformat .usual "select a,from t".toList := by
  decide +kernel

end SqlLayout
