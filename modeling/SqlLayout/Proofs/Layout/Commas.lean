import SqlLayout.Proofs.Layout.LineEnds
import SqlLayout.Proofs.Text.Cuts
import SqlLayout.Proofs.Text.Raising

/-!
# Commas between items

The body of a list is cut at its commas at the top level, and at no others.  The state of quotes and
parentheses behind such a comma is the one in front of all texts.  So the items on the two sides of
the comma can be told apart from each other, and items that are put together again, with commas and
spaces between them, are found again.

## Main definitions

* `Text.endsItem` : the commas at the top level, told from all that stands in front of them.

## Main results

* `Text.cutAtCommas_eq_cutFrom` : the pieces of a text are what stands between these commas.
* `Text.items_append_comma` : the items on the two sides of a comma.
* `Text.items_intercalate` : items that are put together are found again.
* `items_cut_at_commas` : what the items of a text are.
-/

namespace SqlLayout

namespace Text

/-- Whether a character is a comma at the top level, where `before` is all that stands in front of
it. -/
def endsItem (before : Text) (c : Char) : Bool := (Nesting.start.after before).isTop && c == ','

theorem endsItem_comma {before : Text} (h : before.Complete) : endsItem before ',' = true := by
  have h : Nesting.start.after before = .start := h
  rw [endsItem, h]
  rfl

/-- Behind a complete text the parts of a text are those of the text alone. -/
theorem Complete.cutFrom_eq {before : Text} (h : before.Complete) (t : Text) :
    cutFrom endsItem before t = cutWhere endsItem t := by
  refine cutFrom_congr fun u c => ?_
  have h : Nesting.start.after before = .start := h
  rw [endsItem, Nesting.after_append, h]
  rfl

/-- The pieces of a text are what stands between its commas at the top level. -/
theorem cutAtCommas_eq_cutFrom (before t : Text) :
    (cutAtCommas (Nesting.start.after before) t).1 ::
      (cutAtCommas (Nesting.start.after before) t).2 = cutFrom endsItem before t := by
  induction t generalizing before with
  | nil => rfl
  | cons c t ih =>
    have ih := ih (before ++ [c])
    rw [Nesting.after_append] at ih
    have hrule : ((Nesting.start.after before).isTop && c == ',') = endsItem before c := rfl
    rw [cutFrom_cons, ← ih, cutAtCommas, hrule]
    split
    · rfl
    · rfl

theorem items_eq_map_trim (t : Text) : t.items = (t.cutWhere endsItem).map trim := by
  rw [items, cutWhere, ← cutAtCommas_eq_cutFrom]
  rfl

/-! ### Items side by side -/

/-- The items on the two sides of a comma at the top level. -/
theorem items_append_comma {t : Text} (h : t.Complete) (u : Text) :
    items (t ++ ',' :: u) = items t ++ items u := by
  have hcomma : (t ++ [',']).Complete := h.append rfl
  have hrule : endsItem ([] ++ t) ',' = true := endsItem_comma h
  rw [items_eq_map_trim, items_eq_map_trim, items_eq_map_trim, ← List.map_append, cutWhere,
    cutFrom_append_cons hrule, List.nil_append, hcomma.cutFrom_eq]
  rfl

theorem NoCut.left {n : Nesting} {t u : Text} (h : NoCut n (t ++ u)) : NoCut n t := by
  induction t generalizing n with
  | nil => trivial
  | cons c t ih => exact ⟨h.1, ih h.2⟩

theorem NoCut.right {n : Nesting} {t u : Text} (h : NoCut n (t ++ u)) : NoCut (n.after t) u := by
  induction t generalizing n with
  | nil => exact h
  | cons c t ih => exact ih h.2

/-- Trimming makes no comma a cut. -/
theorem NoCut.trim {t : Text} (h : NoCut .start t) : NoCut .start t.trim := by
  obtain ⟨front, behind, hfront, -, heq⟩ := t.exists_trim_append
  rw [heq] at h
  have hstart : Nesting.start.after front = .start := complete_of_isBlank hfront
  exact hstart ▸ h.right.left

/-- No comma at the top level is left in the pieces of a text. -/
theorem noCut_of_cutAtCommas (n : Nesting) (t : Text) :
    NoCut n (cutAtCommas n t).1 ∧ ∀ piece ∈ (cutAtCommas n t).2, NoCut .start piece := by
  induction t generalizing n with
  | nil => exact ⟨trivial, List.forall_mem_nil _⟩
  | cons c t ih =>
    obtain ⟨hfirst, hothers⟩ := ih (n.next c)
    rw [cutAtCommas]
    split
    · rename_i hcut
      obtain ⟨htop, hc⟩ := Bool.and_eq_true_iff.1 hcut
      obtain rfl : n = .start := Nesting.isTop_iff.1 htop
      obtain rfl : c = ',' := by simpa using hc
      exact ⟨trivial, List.forall_mem_cons.2 ⟨hfirst, hothers⟩⟩
    · rename_i hcut
      exact ⟨⟨Bool.eq_false_iff.2 hcut, hfirst⟩, hothers⟩

theorem noCut_of_mem_items {t item : Text} (h : item ∈ t.items) : NoCut .start item := by
  obtain ⟨hfirst, hothers⟩ := noCut_of_cutAtCommas .start t
  obtain ⟨piece, hpiece, rfl⟩ := List.mem_map.1 h
  exact NoCut.trim (List.forall_mem_cons.2 ⟨hfirst, hothers⟩ piece hpiece)

theorem trim_of_mem_items {t item : Text} (h : item ∈ t.items) : item.trim = item := by
  obtain ⟨piece, -, rfl⟩ := List.mem_map.1 h
  exact piece.trim_trim

/-- Texts that are joined, where the separator is a character with a gap behind it: the gap may as
well belong to what follows. -/
theorem intercalate_cons_gap (c : Char) (gap part : Text) (parts : List Text) :
    List.intercalate (c :: gap) (part :: parts) =
      [c].intercalate (part :: parts.map (gap ++ ·)) := by
  induction parts generalizing part with
  | nil => rfl
  | cons next parts ih =>
    have ih := ih (gap ++ next)
    rw [List.map_cons, List.intercalate_cons_cons, List.intercalate_cons_cons, ← ih]
    cases parts with
    | nil => simp [List.intercalate]
    | cons third parts => simp [List.intercalate_cons_cons]

/-- Behind a complete text, one without a comma at the top level is not cut. -/
theorem NoCut.cutFrom_eq {before t : Text} (h : NoCut .start t) (hbefore : before.Complete) :
    Text.cutFrom endsItem before t = [t] := by
  have hcut := cutAtCommas_append h []
  rw [List.append_nil] at hcut
  rw [hbefore.cutFrom_eq, cutWhere, ← cutAtCommas_eq_cutFrom, Nesting.after_nil, hcut]
  simp [cutAtCommas]

theorem trim_gap_append {gap : Text} (h : gap.IsBlank) (t : Text) : (gap ++ t).trim = t.trim := by
  rw [trim, trim, trimStart, trimStart, List.dropWhile_append_of_pos h]

/-- Items that are put together, with commas and gaps between them, are found again.  Only the last
of them may leave something open. -/
theorem items_intercalate {gap : Text} (hgap : gap.IsBlank) {parts : List Text} (hne : parts ≠ [])
    (htrim : ∀ part ∈ parts, part.trim = part) (hwhole : ∀ part ∈ parts, NoCut .start part)
    (hcomplete : ∀ part ∈ parts.dropLast, part.Complete) :
    items (List.intercalate (',' :: gap) parts) = parts := by
  obtain ⟨part, parts, rfl⟩ := List.exists_cons_of_ne_nil hne
  obtain ⟨hpart, hparts⟩ := List.forall_mem_cons.1 hwhole
  have hstart : Nesting.start.after gap = .start := complete_of_isBlank hgap
  have hcut : cutWhere endsItem ([','].intercalate (part :: parts.map (gap ++ ·))) =
      part :: parts.map (gap ++ ·) := by
    refine cutFrom_intercalate Complete (List.cons_ne_nil _ _) ?_ ?_ complete_nil
    · intro u hu
      refine List.forall_mem_cons.2
        ⟨hpart.cutFrom_eq hu, List.forall_mem_map.2 fun next hnext => ?_⟩
      have hnext : NoCut (Nesting.start.after gap) next := hstart.symm ▸ hparts next hnext
      exact NoCut.cutFrom_eq ((noCut_of_isBlank hgap .start).append hnext) hu
    · intro u hu p hp
      have hp : p.Complete := by
        cases parts with
        | nil => cases hp
        | cons next parts =>
          rw [List.dropLast_cons_of_ne_nil (List.cons_ne_nil next parts)] at hcomplete
          obtain ⟨hfirst, hothers⟩ := List.forall_mem_cons.1 hcomplete
          rw [List.map_cons, List.dropLast_cons_of_ne_nil (List.cons_ne_nil _ _), ← List.map_cons,
            ← List.map_dropLast] at hp
          rcases List.mem_cons.1 hp with rfl | hp
          · exact hfirst
          · obtain ⟨q, hq, rfl⟩ := List.mem_map.1 hp
            exact (complete_of_isBlank hgap).append (hothers q hq)
      have hup := hu.append hp
      exact ⟨endsItem_comma hup, hup.append rfl⟩
  obtain ⟨hfirst, hothers⟩ := List.forall_mem_cons.1 htrim
  rw [intercalate_cons_gap, items_eq_map_trim, hcut, List.map_cons, List.map_map, hfirst]
  refine congrArg (part :: ·) ((List.map_congr_left fun next hnext => ?_).trans parts.map_id)
  rw [Function.comp_apply, trim_gap_append hgap, hothers next hnext, id]

end Text

/-- The items of a text are what stands between its commas at the top level, trimmed, and nothing
but these commas is left out.  So there is one item more than there are such commas.  A comma behind
a text that leaves nothing open takes the items on its two sides apart, and the items of a text with
commas and spaces between them are found again. -/
theorem items_cut_at_commas :
    (∀ t : Text, t.items = (t.cutWhere Text.endsItem).map Text.trim ∧
      [','].intercalate (t.cutWhere Text.endsItem) = t ∧
      t.items.length = t.countWhere Text.endsItem + 1) ∧
    (∀ a b : Text, Nesting.start.after a = .start →
      Text.items (a ++ ',' :: b) = a.items ++ b.items) ∧
    ∀ t : Text, Text.items ([',', ' '].intercalate t.items) = t.items := by
  refine ⟨fun t => ⟨t.items_eq_map_trim, ?_, ?_⟩, fun a b ha => Text.items_append_comma ha b,
    fun t => ?_⟩
  · have hcomma : ∀ u c, Text.endsItem u c = true → c = ',' := fun u c h => by
      simpa using (Bool.and_eq_true_iff.1 h).2
    exact Text.intercalate_cutFrom hcomma [] t
  · rw [t.items_eq_map_trim, List.length_map]
    exact Text.length_cutFrom Text.endsItem [] t
  · have hspace : Text.IsBlank [' '] := List.forall_mem_singleton.2 isBlank_space
    exact Text.items_intercalate hspace t.items_ne_nil (fun _ => Text.trim_of_mem_items)
      (fun _ => Text.noCut_of_mem_items) t.complete_of_mem_dropLast_items

/-- A stray parenthesis and a group stand in front of a comma, and an open region behind it. -/
theorem items_cut_at_commas_open_region :
    Nesting.start.after "a), f(b, c)".toList = .start ∧
      Text.items ("a), f(b, c)".toList ++ ',' :: " 'd, e ".toList) =
        ["a)", "f(b, c)", "'d, e"].map String.toList := by
  refine ⟨by decide, (items_cut_at_commas.2.1 _ _ (by decide)).trans ?_⟩
  decide +kernel

end SqlLayout
