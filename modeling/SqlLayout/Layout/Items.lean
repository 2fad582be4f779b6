import SqlLayout.Nesting
import SqlLayout.Text.Blank

/-!
# Items of a list

The body of a list clause consists of items with commas between them.  Commas inside quoted regions
and groups in parentheses belong to an item.

## Main definitions

* `Text.cutAtCommas` : the pieces of a text between its top-level commas, the first one apart.
* `Text.items` : the same pieces, trimmed.

## Main results

* `Text.intercalate_cutAtCommas` : the pieces with commas between them make up the text.
-/

namespace SqlLayout.Text

/-- The pieces of a text between its top-level commas: the first piece, which is there in every
text, and those behind a comma.  `n` is the state of quotes and parentheses in front of the
text. -/
def cutAtCommas : Nesting → Text → Text × List Text
  | _, [] => ([], [])
  | n, c :: t =>
    let behind := cutAtCommas (n.next c) t
    if n.isTop && c == ',' then ([], behind.1 :: behind.2) else (c :: behind.1, behind.2)

/-- The items of the body of a list.  There is at least one, and items may be empty. -/
def items (t : Text) : List Text :=
  let pieces := cutAtCommas .start t
  (pieces.1 :: pieces.2).map trim

theorem items_ne_nil (t : Text) : items t ≠ [] := List.cons_ne_nil _ _

/-- The pieces with commas between them make up the text. -/
theorem intercalate_cutAtCommas (n : Nesting) (t : Text) :
    [','].intercalate ((cutAtCommas n t).1 :: (cutAtCommas n t).2) = t := by
  induction t generalizing n with
  | nil => rfl
  | cons c t ih =>
    specialize ih (n.next c)
    rw [cutAtCommas]
    split
    · rename_i hcut
      have hc : c = ',' := by simpa using (Bool.and_eq_true_iff.1 hcut).2
      rw [List.intercalate_cons_cons, ih, hc]
      rfl
    · cases hbehind : (cutAtCommas (n.next c) t).2 with
      | nil => simp_all
      | cons piece pieces =>
        rw [hbehind, List.intercalate_cons_cons] at ih
        rw [List.intercalate_cons_cons, List.cons_append, List.cons_append, ih]

end SqlLayout.Text
