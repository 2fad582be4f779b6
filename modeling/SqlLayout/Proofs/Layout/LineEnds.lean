import SqlLayout.Proofs.Layout.Reflow
import SqlLayout.Proofs.Scan.Opacity
import SqlLayout.Proofs.Scan.TopLevel

/-!
# Where lines end

No line of a layout ends inside a quoted region or a group in parentheses, except at the end of the
statement.  Lines end behind tokens, of which only the last can be left open, or behind the commas
at which a list is cut, and these stand at the top level too.

## Main results

* `Text.complete_of_mem_dropLast_items` : all items of a text but the last are complete.
* `Page.complete_add`, `Page.complete_addAll` : the lines that tokens finish are complete.
* `lines_end_at_top_level` : all lines of a layout but the last are complete.
-/

namespace SqlLayout

/-! ### Items -/

namespace Text

/-- Blank characters at its end do not matter to whether a text is complete. -/
theorem Complete.of_append_isBlank {t gap : Text} (h : (t ++ gap).Complete) (hgap : gap.IsBlank) :
    t.Complete := by
  have h : (Nesting.start.after t).after gap = .start := by rwa [← Nesting.after_append]
  rw [Complete, ← Nesting.isTop_iff, ← Nesting.isTop_after_isBlank hgap, h, Nesting.isTop_start]

theorem Complete.trim {t : Text} (h : t.Complete) : t.trim.Complete := by
  obtain ⟨front, behind, hfront, hbehind, heq⟩ := t.exists_trim_append
  rw [heq] at h
  exact ((complete_of_isBlank hfront).right h).of_append_isBlank hbehind

/-- Behind the first piece of a text stands a comma at the top level, unless the piece is the only
one. -/
theorem exists_of_cutAtCommas_eq {n : Nesting} {t piece : Text} {pieces : List Text}
    (h : cutAtCommas n t = (piece, pieces)) :
    (pieces = [] ∧ t = piece) ∨ ∃ second others u, pieces = second :: others ∧
      t = piece ++ ',' :: u ∧ n.after piece = .start ∧ cutAtCommas .start u = (second, others) := by
  induction t generalizing n piece with
  | nil =>
    obtain ⟨rfl, rfl⟩ := Prod.mk.inj h
    exact Or.inl ⟨rfl, rfl⟩
  | cons c t ih =>
    rw [cutAtCommas] at h
    split at h
    · rename_i hcut
      obtain ⟨htop, hc⟩ := Bool.and_eq_true_iff.1 hcut
      obtain rfl : n = .start := Nesting.isTop_iff.1 htop
      obtain rfl : c = ',' := by simpa using hc
      obtain ⟨rfl, rfl⟩ := Prod.mk.inj h
      exact Or.inr ⟨_, _, t, rfl, rfl, rfl, rfl⟩
    · obtain ⟨rfl, rfl⟩ := Prod.mk.inj h
      rcases ih rfl with ⟨hnil, ht⟩ | ⟨second, others, u, hpieces, ht, hafter, hu⟩
      · exact Or.inl ⟨hnil, congrArg _ ht⟩
      · exact Or.inr ⟨second, others, u, hpieces, congrArg _ ht, hafter, hu⟩

/-- All pieces of a text but the last are complete, and so is the last one if the text is. -/
theorem complete_of_cutAtCommas_eq {t piece : Text} {pieces : List Text}
    (h : cutAtCommas .start t = (piece, pieces)) :
    (∀ u ∈ (piece :: pieces).dropLast, u.Complete) ∧
      (t.Complete → ∀ u ∈ piece :: pieces, u.Complete) := by
  induction pieces generalizing t piece with
  | nil =>
    refine ⟨List.forall_mem_nil _, fun ht => ?_⟩
    rcases exists_of_cutAtCommas_eq h with ⟨-, rfl⟩ | ⟨_, _, _, hnil, -⟩
    · exact List.forall_mem_singleton.2 ht
    · cases hnil
  | cons second others ih =>
    rcases exists_of_cutAtCommas_eq h with ⟨hnil, -⟩ | ⟨_, _, u, heq, rfl, hpiece, hu⟩
    · cases hnil
    · obtain ⟨rfl, rfl⟩ := List.cons.inj heq
      obtain ⟨hinit, hall⟩ := ih hu
      have hpiece : piece.Complete := hpiece
      rw [List.dropLast_cons_of_ne_nil (List.cons_ne_nil second others)]
      refine ⟨List.forall_mem_cons.2 ⟨hpiece, hinit⟩, fun ht => ?_⟩
      have hcomma : Complete [','] := rfl
      rw [← List.singleton_append] at ht
      exact List.forall_mem_cons.2 ⟨hpiece, hall (hcomma.right (hpiece.right ht))⟩

/-- All items of a text but the last are complete. -/
theorem complete_of_mem_dropLast_items (t : Text) : ∀ item ∈ t.items.dropLast, item.Complete := by
  intro item hitem
  rw [items, ← List.map_dropLast] at hitem
  obtain ⟨piece, hpiece, rfl⟩ := List.mem_map.1 hitem
  exact ((complete_of_cutAtCommas_eq rfl).1 piece hpiece).trim

/-- All items of a complete text are complete. -/
theorem Complete.complete_of_mem_items {t : Text} (h : t.Complete) :
    ∀ item ∈ t.items, item.Complete := by
  intro item hitem
  obtain ⟨piece, hpiece, rfl⟩ := List.mem_map.1 hitem
  exact ((complete_of_cutAtCommas_eq rfl).2 h piece hpiece).trim

end Text

/-! ### Lines -/

namespace Page

variable (i : Indent) {p : Page}

theorem complete_margin (p : Page) : (p.margin i).Complete :=
  Text.complete_of_isBlank (isBlank_margin i p)

theorem complete_of_mem_close (hp : p.line.Complete) : ∀ l ∈ p.close, l.Complete := by
  rw [close]
  split
  · exact List.forall_mem_nil _
  · exact List.forall_mem_singleton.2 hp

theorem complete_write (hp : p.line.Complete) {t : Text} (ht : t.Complete) :
    (p.write i t).line.Complete := by
  rw [write]
  split
  · exact (complete_margin i p).append ht
  · have hspace : Text.Complete [' '] := rfl
    exact hp.append (hspace.append ht)

/-- Items finish complete lines if all of them but the last are complete, and they leave one open if
the last one is complete too. -/
theorem complete_writeItems (hp : p.line.Complete) {items : List Text}
    (h : ∀ item ∈ items.dropLast, item.Complete) :
    (∀ l ∈ (p.writeItems i items).1, l.Complete) ∧
      ((∀ item ∈ items, item.Complete) → (p.writeItems i items).2.line.Complete) := by
  induction items generalizing p with
  | nil => exact ⟨List.forall_mem_nil _, fun _ => hp⟩
  | cons item items ih =>
    cases items with
    | nil => exact ⟨List.forall_mem_nil _, fun hall => complete_write i hp (hall item (by simp))⟩
    | cons second others =>
      rw [List.dropLast_cons_of_ne_nil (List.cons_ne_nil second others)] at h
      obtain ⟨hitem, hothers⟩ := List.forall_mem_cons.1 h
      obtain ⟨hlines, hopen⟩ := ih (p := { p with line := [] }) Text.complete_nil hothers
      have hcomma : Text.Complete [','] := rfl
      refine ⟨List.forall_mem_cons.2 ⟨(complete_write i hp hitem).append hcomma, hlines⟩, ?_⟩
      exact fun hall => hopen (List.forall_mem_cons.1 hall).2

/-- A token finishes complete lines if it is free text or complete.  If it is complete, so is the
line that it leaves open. -/
theorem complete_add (hp : p.line.Complete) {t : Token} (ht : t.text.Complete ∨ t.kind = .str) :
    (∀ l ∈ (p.add i t).1, l.Complete) ∧ (t.text.Complete → (p.add i t).2.line.Complete) := by
  have hclose := complete_of_mem_close hp
  have hwrite := complete_write i hp (t := t.text)
  obtain ⟨kind, text⟩ := t
  cases kind with
  | limit | offset => exact ⟨hclose, id⟩
  | select | «from» | «where» | group | having | order =>
    have htext := ht.resolve_right nofun
    refine ⟨fun l hl => ?_, fun _ => Text.complete_nil⟩
    rcases List.mem_append.1 hl with hl | hl
    · exact hclose l hl
    · rwa [List.mem_singleton.1 hl]
  | join => exact ⟨hclose, (complete_margin i p).append⟩
  | and | or =>
    simp only [add]
    split
    · exact ⟨hclose, (complete_margin i p).append⟩
    · exact ⟨List.forall_mem_nil _, hwrite⟩
  | str =>
    -- only a list finishes lines without the token being complete, at its commas
    simp only [add]
    split
    · obtain ⟨hlines, hopen⟩ := complete_writeItems i hp (Text.complete_of_mem_dropLast_items text)
      exact ⟨hlines, fun htext => hopen htext.complete_of_mem_items⟩
    · exact ⟨List.forall_mem_nil _, hwrite⟩
  | on | compare | «in» => exact ⟨List.forall_mem_nil _, hwrite⟩

/-- Tokens finish complete lines if only the last of them is left open. -/
theorem complete_addAll (hp : p.line.Complete) {ts : List Token} (h : Token.OpenOnlyLast ts) :
    ∀ l ∈ (p.addAll i ts).1, l.Complete := by
  induction ts generalizing p with
  | nil => exact List.forall_mem_nil _
  | cons t ts ih =>
    obtain ⟨ht, hts⟩ := h
    obtain ⟨hlines, hopen⟩ := complete_add i hp (ht.imp_right And.left)
    intro l hl
    rcases List.mem_append.1 hl with hl | hl
    · exact hlines l hl
    · rcases ht with ht | ⟨-, rfl⟩
      · exact ih (hopen ht) hts l hl
      · cases hl

/-- All lines of tokens but the last are complete if only the last token is left open. -/
theorem complete_of_mem_dropLast_lines {ts : List Token} (h : Token.OpenOnlyLast ts) :
    ∀ l ∈ (lines i ts).dropLast, l.Complete := by
  have hlines := complete_addAll i (p := blank) Text.complete_nil h
  intro l hl
  rw [lines, close] at hl
  split at hl
  · rw [List.append_nil] at hl
    exact hlines l (List.dropLast_subset _ hl)
  · rw [List.dropLast_concat] at hl
    exact hlines l hl

end Page

/-- No line of a layout ends inside a quoted region or a group in parentheses, except at the end of
the statement: every line but the last is complete when it is read alone, and so is all that stands
in front of a line when it is read as one text. -/
theorem lines_end_at_top_level (i : Indent) (raw : Text) :
    (∀ l ∈ (Page.lines i (Statement.ofText raw).sql.tokens).dropLast,
        Nesting.start.after l = .start) ∧
      ∀ before after : List Text, Page.lines i (Statement.ofText raw).sql.tokens = before ++ after →
        after ≠ [] → Nesting.start.after (['\n'].intercalate before) = .start := by
  have htokens := (Statement.ofText raw).sql.openOnlyLast_tokens
  have hlines := Page.complete_of_mem_dropLast_lines i htokens
  refine ⟨hlines, fun before after heq hne => ?_⟩
  have hbreak : Text.IsBlank ['\n'] := List.forall_mem_singleton.2 (by decide)
  refine Text.complete_intercalate hbreak fun l hl => hlines l ?_
  rw [heq, List.dropLast_append_of_ne_nil hne]
  exact List.mem_append_left _ hl

/-- A stray parenthesis, a group with a comma in it, and a region that is left open. -/
theorem lines_end_at_top_level_open_region :
    Page.lines .usual (Statement.ofText "select a), f(b, c) from 'd, e".toList).sql.tokens =
        ["SELECT", "    a),", "    f(b, c)", "FROM", "    'd, e"].map String.toList ∧
      Nesting.start.after "    f(b, c)".toList = .start ∧
      Nesting.start.after "SELECT\n    a),".toList = .start := by
  have hlines :
      Page.lines .usual (Statement.ofText "select a), f(b, c) from 'd, e".toList).sql.tokens =
        ["SELECT", "    a),", "    f(b, c)", "FROM", "    'd, e"].map String.toList := by
    decide +kernel
  obtain ⟨hline, hfront⟩ := lines_end_at_top_level .usual "select a), f(b, c) from 'd, e".toList
  refine ⟨hlines, hline _ ?_, hfront (["SELECT", "    a),"].map String.toList)
    (["    f(b, c)", "FROM", "    'd, e"].map String.toList) hlines (by decide)⟩
  rw [hlines]
  decide

end SqlLayout
