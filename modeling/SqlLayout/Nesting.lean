import SqlLayout.Quoting

/-!
# Quotes and parentheses together

Parentheses are counted outside quoted regions only.  A closing parenthesis that no opening one
precedes leaves the count at zero, so no text makes it negative.

## Main definitions

* `Nesting` : the state of a reader of quotes and parentheses between two characters.
* `Nesting.start` : the state in front of a text; it is also the only state at the top level.
* `Nesting.next`, `Nesting.after` : the state behind a character, and behind a text.
* `Nesting.closes` : whether a character ends a quoted region or a group at the top level.

## Main results

* `Nesting.after_append` : a text is read part by part.
* `Nesting.isTop_of_closes` : behind a character that closes, the reader is at the top level.
-/

namespace SqlLayout

/-- The state of a reader of quotes and parentheses: its quoted region, if one is open, and the
number of open parentheses. -/
structure Nesting where
  quoting : Quoting
  depth : Nat
  deriving DecidableEq

namespace Nesting

/-- The state in front of a text: no quoted region and no parenthesis is open. -/
def start : Nesting := ⟨.outside, 0⟩

/-- Whether no quoted region and no parenthesis is open. -/
def isTop (n : Nesting) : Bool := n.depth == 0 && !n.quoting.isOpen

/-- The number of open parentheses behind a character outside of quoted regions. -/
def depthAfter (depth : Nat) (c : Char) : Nat :=
  if c = '(' then depth + 1 else if c = ')' then depth - 1 else depth

/-- The state behind a character. -/
def next (n : Nesting) (c : Char) : Nesting where
  quoting := n.quoting.next c
  depth := if n.quoting.covers c then n.depth else depthAfter n.depth c

/-- Whether a character ends a quoted region at the top level, or is a closing parenthesis behind
which the top level is reached. -/
def closes (n : Nesting) (c : Char) : Bool :=
  (n.next c).isTop && (n.quoting.covers c || c == ')')

/-- The state behind a text. -/
def after (n : Nesting) (t : Text) : Nesting := t.foldl next n

@[simp] theorem after_nil (n : Nesting) : n.after [] = n := rfl

@[simp] theorem after_cons (n : Nesting) (c : Char) (t : Text) :
    n.after (c :: t) = (n.next c).after t := rfl

/-- A text is read part by part. -/
theorem after_append (n : Nesting) (t u : Text) : n.after (t ++ u) = (n.after t).after u :=
  List.foldl_append

@[simp] theorem isTop_start : start.isTop = true := rfl

/-- The state in front of a text is the only one at the top level. -/
theorem isTop_iff {n : Nesting} : n.isTop = true ↔ n = start := by
  obtain ⟨quoting, depth⟩ := n
  cases quoting <;> simp [isTop, start, Quoting.isOpen]

/-- Behind a character that closes, the reader is at the top level. -/
theorem isTop_of_closes {n : Nesting} {c : Char} (h : n.closes c = true) :
    (n.next c).isTop = true :=
  (Bool.and_eq_true_iff.1 h).1

/-- The quoted regions of a text do not depend on its parentheses. -/
theorem quoting_after (n : Nesting) (t : Text) : (n.after t).quoting = n.quoting.after t := by
  induction t generalizing n with
  | nil => rfl
  | cons c t ih => exact ih (n.next c)

end Nesting

end SqlLayout
