import SqlLayout.Proofs.Layout.Reflow
import SqlLayout.Proofs.Scan.Coverage
import SqlLayout.Proofs.Scan.Gaps
import SqlLayout.Proofs.Text.Narrowing

/-!
# Blank characters in statements

How many blank characters stand in a gap, and which ones, does not matter to tokens, since a scan of
lexemes asks only whether there is a gap.  It does not matter to clean statements either: trimming,
taking off a terminator and writing keywords in upper case all commute with replacing each gap by
one space.

## Main results

* `Text.collapseFrom_append_cons` : a character that is not blank parts what is collapsed.
* `Text.trim_collapse`, `Text.upperKeywords_collapse` : collapsing commutes with trimming and with
  writing keywords in upper case.
* `Statement.ofText_collapse` : the clean form of a collapsed text.
* `reformat_collapse` : texts that collapse alike have the same tokens and the same layout.
-/

namespace SqlLayout

/-! ### Collapsing character by character -/

namespace Text

theorem collapseFrom_eq_writeFrom (s : Quoting) (t : Text) :
    collapseFrom s t = writeFrom [' '] s t :=
  (Chunk.write_space (chunksFrom s t)).symm

/-- A character that is kept, in front of a text: it is quoted, or it is not blank. -/
theorem collapseFrom_cons {s : Quoting} {c : Char} (h : s.covers c = true ∨ isBlank c = false)
    (t : Text) : collapseFrom s (c :: t) = c :: collapseFrom (s.next c) t := by
  rw [collapseFrom_eq_writeFrom, writeFrom_cons h, collapseFrom_eq_writeFrom]

/-- A blank character outside of quotes, in front of a text: it makes a space unless the text begins
with one that does. -/
theorem collapseFrom_cons_of_isBlank {c : Char} (h : isBlank c = true) (t : Text) :
    collapseFrom .outside (c :: t) =
      if t.startsBlank then collapseFrom .outside t else ' ' :: collapseFrom .outside t := by
  rw [collapseFrom_eq_writeFrom, writeFrom_cons_of_isBlank h, ← collapseFrom_eq_writeFrom]
  cases t with
  | nil => rfl
  | cons d t => cases hd : startsBlank (d :: t) <;> rfl

/-- A character that is not blank parts what is collapsed. -/
theorem collapseFrom_append_cons {c : Char} (hc : isBlank c = false) (s : Quoting) (t u : Text) :
    collapseFrom s (t ++ c :: u) =
      collapseFrom s t ++ c :: collapseFrom ((s.after t).next c) u := by
  induction t generalizing s with
  | nil => exact collapseFrom_cons (Or.inr hc) u
  | cons d t ih =>
    by_cases hd : s.covers d = true ∨ isBlank d = false
    · rw [List.cons_append, collapseFrom_cons hd, collapseFrom_cons hd, ih]
      rfl
    · obtain ⟨hcovers, hblank⟩ := not_or.1 hd
      rw [Bool.not_eq_true] at hcovers
      rw [Bool.not_eq_false] at hblank
      obtain ⟨rfl, hnext⟩ := Quoting.next_of_not_covers hcovers
      have hstart : startsBlank (t ++ c :: u) = startsBlank t := by
        cases t with
        | nil => exact hc
        | cons e t => rfl
      rw [List.cons_append, collapseFrom_cons_of_isBlank hblank, hstart, ih,
        collapseFrom_cons_of_isBlank hblank, Quoting.after_cons, hnext]
      split <;> rfl

theorem collapse_concat {c : Char} (hc : isBlank c = false) (t : Text) :
    (t ++ [c]).collapse = t.collapse ++ [c] :=
  collapseFrom_append_cons hc .outside t []

theorem isBlank_collapseFrom {gap : Text} (h : gap.IsBlank) (s : Quoting) :
    (collapseFrom s gap).IsBlank := by
  induction gap generalizing s with
  | nil => exact nofun
  | cons c gap ih =>
    obtain ⟨hc, hgap⟩ := List.forall_mem_cons.1 h
    cases hcovers : s.covers c with
    | true =>
      rw [collapseFrom_cons (Or.inl hcovers)]
      exact List.forall_mem_cons.2 ⟨hc, ih hgap _⟩
    | false =>
      obtain ⟨rfl, -⟩ := Quoting.next_of_not_covers hcovers
      rw [collapseFrom_cons_of_isBlank hc]
      split
      · exact ih hgap _
      · exact List.forall_mem_cons.2 ⟨isBlank_space, ih hgap _⟩

/-! ### Trimming -/

theorem trimStart_collapse (t : Text) : t.collapse.trimStart = t.trimStart.collapse := by
  have hgap := t.isBlank_takeWhile
  have ht := t.takeWhile_append_trimStart
  have hstart := t.startsBlank_trimStart
  cases hrest : t.trimStart with
  | nil =>
    rw [hrest, List.append_nil] at ht
    rw [ht] at hgap
    exact Lexeme.trimStart_eq_nil (isBlank_collapseFrom hgap .outside)
  | cons c u =>
    rw [hrest] at ht hstart
    have hc : isBlank c = false := hstart
    have hsplit := collapseFrom_append_cons hc .outside (t.takeWhile isBlank) u
    rw [ht, after_isBlank hgap _ rfl] at hsplit
    change (collapseFrom .outside t).trimStart = collapseFrom .outside (c :: u)
    rw [hsplit, collapseFrom_cons (Or.inr hc)]
    have hcollapsed : startsBlank (c :: collapseFrom (Quoting.outside.next c) u) = false := hc
    exact (Lexeme.takeWhile_gap_append (isBlank_collapseFrom hgap .outside) hcollapsed).2

theorem trimEnd_collapse (t : Text) : t.collapse.trimEnd = t.trimEnd.collapse := by
  rcases t.exists_solid_end with hblank | ⟨u, c, gap, rfl, hc, hgap⟩
  · rw [trimEnd_of_isBlank hblank]
    exact trimEnd_of_isBlank (isBlank_collapseFrom hblank .outside)
  · have hsplit := collapseFrom_append_cons hc .outside u gap
    rw [List.append_cons] at hsplit
    change (collapseFrom .outside (u ++ [c] ++ gap)).trimEnd = _
    rw [hsplit, trimEnd_solid_end hc hgap, collapse_concat hc, List.append_cons,
      trimEnd_solid_end hc (isBlank_collapseFrom hgap _)]
    rfl

/-- Collapsing commutes with trimming. -/
theorem trim_collapse (t : Text) : t.collapse.trim = t.trim.collapse := by
  rw [trim, trimStart_collapse, trimEnd_collapse, trim]

/-! ### Collapsing lexeme by lexeme -/

/-- Collapsing does not matter to the flow of a text. -/
theorem flow_collapse (t : Text) : t.collapse.flow = t.flow := by
  obtain ⟨L, tail, hL, rfl⟩ := exists_tight t
  rw [flow, hL.collapse_ofLexemes, toLexemes_ofLexemes hL.map_plain_collapsed,
    Lexeme.setOff_map_plain, flow, toLexemes_ofLexemes hL]

/-- A collapsed text has the tokens of the text. -/
theorem tokens_collapse (t : Text) : t.collapse.tokens = t.tokens :=
  tokens_eq_of_flow_eq t.flow_collapse

/-- Collapsing commutes with writing keywords in upper case. -/
theorem upperKeywords_collapse (t : Text) :
    t.collapse.upperKeywords = t.upperKeywords.collapse := by
  obtain ⟨L, tail, hL, rfl⟩ := exists_tight t
  rw [hL.collapse_ofLexemes, upperKeywords_ofLexemes hL.map_plain_collapsed,
    upperKeywords_ofLexemes hL, hL.map_fold.collapse_ofLexemes, Lexeme.map_fold_map_plain]

end Text

/-! ### Clean statements and layouts -/

/-- The clean form of a collapsed text is the collapsed clean form. -/
theorem Statement.ofText_collapse (raw : Text) :
    ofText raw.collapse = ⟨(ofText raw).sql.collapse, (ofText raw).terminated⟩ := by
  unfold ofText
  rw [Text.trim_collapse]
  rcases raw.trim_eq_nil_or_isSolid with hnil | ⟨-, u, c, hend, hc⟩
  · rw [hnil]
    rfl
  · rw [hend, Text.collapse_concat hc]
    by_cases hterminator : c = terminator
    · rw [hterminator, Text.splitTerminator?_eq_some_iff.2 rfl,
        Text.splitTerminator?_eq_some_iff.2 rfl]
      simp only [Text.trimEnd_collapse, Text.upperKeywords_collapse]
    · have hnone (t : Text) : Text.splitTerminator? (t ++ [c]) = none := by
        simp [Text.splitTerminator?, hterminator]
      rw [hnone, hnone]
      simp only [← Text.collapse_concat hc, Text.upperKeywords_collapse]

/-- Blank characters outside of quotes do not matter beyond their presence: a collapsed text has the
tokens and the layout of the text.  So texts that collapse alike have the same tokens and the same
layout. -/
theorem reformat_collapse (i : Indent) (t : Text) :
    t.collapse.tokens = t.tokens ∧ reformat i t.collapse = reformat i t ∧
      ∀ u : Text, u.collapse = t.collapse → u.tokens = t.tokens ∧ reformat i u = reformat i t := by
  have hreformat (u : Text) : reformat i u.collapse = reformat i u := by
    rw [reformat, Statement.ofText_collapse, Text.tokens_collapse]
    rfl
  refine ⟨t.tokens_collapse, hreformat t, fun u hu => ⟨?_, ?_⟩⟩
  · rw [← u.tokens_collapse, hu, t.tokens_collapse]
  · rw [← hreformat u, hu, hreformat t]

/-- Two spellings of a statement with blank characters of several kinds, some of them in quotes. -/
theorem reformat_collapse_line_breaks :
    Text.collapse "select\n\ta,  'b  c'\u00a0;".toList =
        Text.collapse "select a,\t'b  c' ;".toList ∧
      Text.tokens "select\n\ta,  'b  c'\u00a0;".toList =
        Text.tokens "select a,\t'b  c' ;".toList ∧
      reformat .usual "select\n\ta,  'b  c'\u00a0;".toList =
        reformat .usual "select a,\t'b  c' ;".toList := by
  have hcollapse : Text.collapse "select\n\ta,  'b  c'\u00a0;".toList =
      Text.collapse "select a,\t'b  c' ;".toList := by
    decide +kernel
  exact ⟨hcollapse,
    (reformat_collapse .usual "select a,\t'b  c' ;".toList).2.2 _ hcollapse⟩

end SqlLayout
