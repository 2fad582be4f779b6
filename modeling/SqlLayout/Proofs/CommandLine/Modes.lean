import SqlLayout.CommandLine.Run
import SqlLayout.Proofs.Layout.Readback
import SqlLayout.Proofs.Statement.Passes

/-!
# Modes that agree

A statement that has been cleaned and printed can be handed to the program again in place of the raw
one.  Its terminator is taken off where it was put back, since a clean text keeps a terminator of
its own only in front of another one.  So in every mode the program shows what it would have shown
of the raw statement.  A layout cannot be cleaned any further either: it has the lexemes of a clean
statement, and whether a keyword is left in lower case can be seen from these.

## Main results

* `Text.upperKeywords_eq_self_of_lexemes` : lexemes decide whether there is a keyword left to write
  in upper case.
* `Statement.ofText_text` : a clean statement with its terminator is clean.
* `Mode.display_congr` : what is shown depends on the clean form of a statement only.
* `modes_agree` : a clean statement stands for the raw one in every mode.
-/

namespace SqlLayout

/-! ### Keywords in layouts -/

namespace Text

/-- A text has its keywords in upper case if a text with the same lexemes has. -/
theorem upperKeywords_eq_self_of_lexemes {t u : Text} (h : t.lexemes = u.lexemes)
    (hu : u.upperKeywords = u) : t.upperKeywords = t := by
  have hmap : u.toLexemes.map Lexeme.fold = u.toLexemes.map id := by
    have hfold := upperKeywords_ofLexemes u.tight_toLexemes
    rw [ofLexemes_toLexemes, hu] at hfold
    rw [List.map_id, ← toLexemes_ofLexemes u.tight_toLexemes.map_fold, ← hfold]
  have hfolded : ∀ chunk ∈ u.lexemes, chunk.folded = chunk := by
    rw [lexemes_eq_map_chunk]
    intro chunk hchunk
    obtain ⟨x, hx, rfl⟩ := List.mem_map.1 hchunk
    exact congrArg Lexeme.chunk (List.map_inj_left.1 hmap x hx)
  rw [← h, lexemes_eq_map_chunk] at hfolded
  have hself := upperKeywords_of_folded t.tight_toLexemes fun x hx =>
    congrArg (Lexeme.mk x.gap) (hfolded x.chunk (List.mem_map_of_mem hx))
  rwa [ofLexemes_toLexemes] at hself

end Text

theorem Statement.isWordChar_of_mem_ending (terminated : Bool) :
    ∀ c ∈ ending terminated, isWordChar c = false := by
  cases terminated with
  | true => exact List.forall_mem_singleton.2 (by decide)
  | false => exact List.forall_mem_nil _

/-- The keywords of a layout are in upper case. -/
theorem upperKeywords_reformat (i : Indent) (raw : Text) :
    (reformat i raw).upperKeywords = reformat i raw := by
  have hlines := Text.upperKeywords_eq_self_of_lexemes (Page.lexemes_lines i raw)
    (Statement.upperKeywords_sql raw)
  rw [reformat, Page.print, Text.upperKeywords_append _ (Statement.isWordChar_of_mem_ending _),
    hlines]

/-! ### Clean statements read again -/

namespace Statement

/-- A clean statement with its terminator put back is clean. -/
@[simp] theorem ofText_text (raw : Text) : ofText (ofText raw).text = ofText raw := by
  rw [text]
  cases hterminated : (ofText raw).terminated with
  | true =>
    rw [ending, if_pos rfl, ofText_append_terminator _ Text.isBlank_nil, trim_sql,
      upperKeywords_sql, ← hterminated]
  | false =>
    rw [ending, if_neg Bool.false_ne_true, List.append_nil, ofText_sql (getLast?_sql hterminated),
      ← hterminated]

/-- Blank characters behind a raw statement do not matter to its clean form. -/
theorem ofText_append_of_isBlank (raw : Text) {gap : Text} (h : gap.IsBlank) :
    ofText (raw ++ gap) = ofText raw := by
  rw [← ofText_trim, Text.trim_append_of_isBlank raw h, ofText_trim]

end Statement

/-! ### Modes -/

/-- The layout of a raw statement depends on its clean form only. -/
theorem reformat_congr {t u : Text} (h : Statement.ofText t = Statement.ofText u) (i : Indent) :
    reformat i t = reformat i u := by
  rw [reformat, h, reformat]

/-- What is shown of a raw statement depends on its clean form only, whatever the mode. -/
theorem Mode.display_congr {t u : Text} (h : Statement.ofText t = Statement.ofText u) (m : Mode) :
    m.display t = m.display u := by
  cases m with
  | listing => rw [display, h, display]
  | clean => rw [display, h, display]
  | layout width =>
    rw [display, display]
    cases Indent.ofWidth? width with
    | none => rfl
    | some i => simp only [reformat_congr h i]

/-- The output of a run that only cleans stands for the raw statement: it has the clean form of that
statement, its tokens, and its layout, and with the line feed behind it every mode shows the same.
No layout has a keyword that a further run would write in upper case. -/
theorem modes_agree (i : Indent) (raw : Text) :
    let clean := (Statement.ofText raw).text
    Mode.clean.display raw = .success (clean ++ ['\n']) ∧
      Statement.ofText clean = Statement.ofText raw ∧
      (Statement.ofText (clean ++ ['\n'])).text = clean ∧
      (Statement.ofText clean).sql.tokens = (Statement.ofText raw).sql.tokens ∧
      reformat i clean = reformat i raw ∧
      (reformat i raw).upperKeywords = reformat i raw ∧
      ∀ m : Mode, m.display (clean ++ ['\n']) = m.display raw := by
  intro clean
  have hclean : Statement.ofText clean = Statement.ofText raw := Statement.ofText_text raw
  have hline : Statement.ofText (clean ++ ['\n']) = Statement.ofText raw := by
    rw [Statement.ofText_append_of_isBlank clean (List.forall_mem_singleton.2 (by decide)), hclean]
  exact ⟨rfl, hclean, congrArg Statement.text hline,
    congrArg (fun s => s.sql.tokens) hclean, reformat_congr hclean i, upperKeywords_reformat i raw,
    Mode.display_congr hline⟩

/-- A region that is left open, and a terminator in front of the last one. -/
example : (Statement.ofText " select 'in ;\t; ".toList).text = "SELECT 'in ;;".toList ∧
    Statement.ofText "SELECT 'in ;;".toList = ⟨"SELECT 'in ;".toList, true⟩ := by
  decide +kernel

end SqlLayout
