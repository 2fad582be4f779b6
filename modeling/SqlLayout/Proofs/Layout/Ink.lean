import SqlLayout.Proofs.Layout.EmptyItems

/-!
# Nothing is lost on a page

Whatever tokens are laid out, with texts that no statement has too, the layout shows all their
characters that are not blank, in order, and adds none but the terminator.  A list takes free text
apart at its commas and trims the items, but each comma comes back at the end of a line.

## Main definitions

* `Text.ink` : the characters of a text that are not blank.

## Main results

* `Page.ink_add` : a token leaves its ink on the lines that it finishes and on the open line.
* `Page.ink_rest` : tokens leave their ink on the lines that they make.
* `ink_print` : the ink of a layout.
-/

namespace SqlLayout

namespace Text

/-- The characters of a text that are not blank. -/
def ink (t : Text) : Text := t.filter fun c => !isBlank c

@[simp] theorem ink_nil : ink [] = [] := rfl

@[simp] theorem ink_append (t u : Text) : ink (t ++ u) = t.ink ++ u.ink := List.filter_append t u

theorem ink_cons_of_isBlank {c : Char} (h : isBlank c = true) (t : Text) : ink (c :: t) = t.ink :=
  List.filter_cons_of_neg (by simp [h])

theorem ink_of_isBlank {t : Text} (h : t.IsBlank) : t.ink = [] :=
  List.filter_eq_nil_iff.2 fun c hc => by simp [h c hc]

@[simp] theorem ink_trim (t : Text) : t.trim.ink = t.ink := by
  obtain ⟨front, behind, hfront, hbehind, heq⟩ := t.exists_trim_append
  conv => rhs; rw [heq]
  simp [ink_of_isBlank hfront, ink_of_isBlank hbehind]

theorem ink_intercalate (sep : Text) (ts : List Text) :
    ink (sep.intercalate ts) = sep.ink.intercalate (ts.map ink) := by
  induction ts with
  | nil => rfl
  | cons t ts ih =>
    cases ts with
    | nil => simp [List.intercalate_singleton]
    | cons u ts =>
      rw [List.map_cons] at ih
      rw [List.intercalate_cons_cons, List.map_cons, List.map_cons, List.intercalate_cons_cons,
        ink_append, ink_append, ih]

theorem ink_intercalate_of_isBlank {sep : Text} (h : sep.IsBlank) (ts : List Text) :
    ink (sep.intercalate ts) = ts.flatMap ink := by
  induction ts with
  | nil => rfl
  | cons t ts ih =>
    cases ts with
    | nil => simp [List.intercalate_singleton]
    | cons u ts =>
      rw [List.intercalate_cons_cons, ink_append, ink_append, ih, ink_of_isBlank h, List.append_nil]
      rfl

/-- Items show the ink of the text, but for the commas between them. -/
theorem intercalate_ink_items (t : Text) : [','].intercalate (t.items.map ink) = t.ink := by
  have hpieces := intercalate_cutAtCommas .start t
  have hink : t.items.map ink =
      ((cutAtCommas .start t).1 :: (cutAtCommas .start t).2).map ink := by
    rw [items, List.map_map]
    exact List.map_congr_left fun piece _ => piece.ink_trim
  have hcomma : ink [','] = [','] := by decide
  rw [hink, ← hcomma, ← ink_intercalate, hpieces]

end Text

namespace Page

variable {i : Indent}

/-- An empty line that is dropped has no ink. -/
theorem ink_close (p : Page) : p.close.flatMap Text.ink = p.line.ink := by
  unfold close
  split
  · rename_i hline
    rw [List.isEmpty_iff.1 hline]
    rfl
  · exact List.flatMap_singleton Text.ink p.line

theorem ink_margin (p : Page) : (p.margin i).ink = [] := Text.ink_of_isBlank (isBlank_margin i p)

theorem ink_write (p : Page) (t : Text) : (p.write i t).line.ink = p.line.ink ++ t.ink := by
  unfold write
  split
  · rename_i hline
    simp [List.isEmpty_iff.1 hline, ink_margin]
  · simp [Text.ink_cons_of_isBlank isBlank_space]

/-- Items leave their ink, with a comma between two of them. -/
theorem ink_writeItems (p : Page) {items : List Text} (h : items ≠ []) :
    (p.writeItems i items).1.flatMap Text.ink ++ (p.writeItems i items).2.line.ink =
      p.line.ink ++ [','].intercalate (items.map Text.ink) := by
  induction items generalizing p with
  | nil => exact absurd rfl h
  | cons item items ih =>
    cases items with
    | nil => simp [writeItems, ink_write, List.intercalate_singleton]
    | cons next items =>
      have hcomma : Text.ink [','] = [','] := by decide
      have ih := ih { p with line := [] } (List.cons_ne_nil next items)
      rw [Text.ink_nil, List.nil_append] at ih
      rw [writeItems_cons_cons, List.flatMap_cons, List.append_assoc, ih, Text.ink_append,
        ink_write, hcomma, List.map_cons, List.map_cons, List.map_cons, List.intercalate_cons_cons]
      simp only [List.append_assoc]

/-- A token leaves its ink on the lines that it finishes and on the open line. -/
theorem ink_add (p : Page) (t : Token) :
    (p.add i t).1.flatMap Text.ink ++ (p.add i t).2.line.ink = p.line.ink ++ t.text.ink := by
  obtain ⟨kind, text⟩ := t
  have hwrite : p.line.ink ++ text.ink = [].flatMap Text.ink ++ (p.write i text).line.ink :=
    (ink_write p text).symm
  cases kind with
  | limit | offset => simp [add, ink_close]
  | select | «from» | «where» | group | having | order => simp [add, ink_close]
  | join => simp [add, ink_close, ink_margin]
  | and | or =>
    simp only [add]
    split
    · simp [ink_close, ink_margin]
    · exact hwrite.symm
  | on | compare | «in» => exact hwrite.symm
  | str =>
    simp only [add]
    split
    · rw [ink_writeItems p text.items_ne_nil, Text.intercalate_ink_items]
    · exact hwrite.symm

/-- Tokens leave their ink on the lines that they make. -/
theorem ink_rest (p : Page) (ts : List Token) :
    (p.rest i ts).flatMap Text.ink = p.line.ink ++ ts.flatMap fun t => t.text.ink := by
  induction ts generalizing p with
  | nil => rw [rest_nil, ink_close, List.flatMap_nil, List.append_nil]
  | cons t ts ih =>
    rw [rest_cons, List.flatMap_append, ih, ← List.append_assoc, ink_add, List.append_assoc,
      List.flatMap_cons]

end Page

/-- A layout shows the characters of its tokens that are not blank, in order, and no others but the
terminator at the end. -/
theorem ink_print (i : Indent) (ts : List Token) (terminated : Bool) :
    (Page.print i ts terminated).ink =
      (ts.flatMap fun t => t.text.ink) ++ Statement.ending terminated := by
  have hending : Text.ink (Statement.ending terminated) = Statement.ending terminated := by
    cases terminated <;> decide
  have hbreak : Text.IsBlank ['\n'] := List.forall_mem_singleton.2 (by decide)
  rw [Page.print, Text.ink_append, Text.ink_intercalate_of_isBlank hbreak, ← Page.rest_blank,
    Page.ink_rest, hending]
  rfl

/-- Tokens without a text, a blank one, an empty item, a group that is left open, and a join with a
comma and a quote. -/
example :
    Page.print .usual [.str [], ⟨.select, " ".toList⟩, .str ",\n(".toList, ⟨.join, "a,'".toList⟩,
        ⟨.limit, []⟩, .str "b,c".toList] true =
      " \n    ,\n    (\n    a,'\n    b,c;".toList := by
  decide +kernel

end SqlLayout
