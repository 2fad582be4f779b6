import SqlLayout.Text.WordChar

/-!
# Keywords

The words that are written in upper case, and from which the phrases of the token classes are
made.  A keyword is a whole word: it is found in any mixture of ASCII cases, and never inside a
longer word.

## Main definitions

* `Keyword` : the keywords, listed by `Keyword.table`.
* `Keyword.letters` : a keyword in upper case.
* `Keyword.modifiers` : the keywords of which one may follow `SELECT`.
* `Keyword.ofWord?` : the keyword that a word spells.
* `Keyword.split?` : a text cut behind a keyword at its start.

## Main results

* `Keyword.split?_eq_some_iff` : which cuts there are behind a keyword.
-/

namespace SqlLayout

/-- The words of a statement that are recognized. -/
inductive Keyword where
  | select
  | distinct
  | distinctRow
  | all
  | sqlCache
  | sqlNoCache
  | sqlCalcFoundRows
  | highPriority
  | «from»
  | join
  | inner
  | left
  | right
  | full
  | outer
  | on
  | «where»
  | group
  | «by»
  | having
  | order
  | limit
  | offset
  | like
  | binary
  | not
  | and
  | or
  | «in»
  deriving DecidableEq

namespace Keyword

/-- Every keyword once. -/
def table : List Keyword :=
  [select, distinct, distinctRow, all, sqlCache, sqlNoCache, sqlCalcFoundRows, highPriority,
    .from, join, inner, left, right, full, outer, on, .where, group, .by, having, order, limit,
    offset, like, binary, not, and, or, .in]

/-- The keywords of which one may follow `SELECT`. -/
def modifiers : List Keyword :=
  [distinct, distinctRow, all, sqlCache, sqlNoCache, sqlCalcFoundRows, highPriority]

/-- The keyword as it is written in a clean statement. -/
def spelling : Keyword → String
  | select => "SELECT"
  | distinct => "DISTINCT"
  | distinctRow => "DISTINCTROW"
  | all => "ALL"
  | sqlCache => "SQL_CACHE"
  | sqlNoCache => "SQL_NO_CACHE"
  | sqlCalcFoundRows => "SQL_CALC_FOUND_ROWS"
  | highPriority => "HIGH_PRIORITY"
  | .from => "FROM"
  | join => "JOIN"
  | inner => "INNER"
  | left => "LEFT"
  | right => "RIGHT"
  | full => "FULL"
  | outer => "OUTER"
  | on => "ON"
  | .where => "WHERE"
  | group => "GROUP"
  | .by => "BY"
  | having => "HAVING"
  | order => "ORDER"
  | limit => "LIMIT"
  | offset => "OFFSET"
  | like => "LIKE"
  | binary => "BINARY"
  | not => "NOT"
  | and => "AND"
  | or => "OR"
  | .in => "IN"

/-- The letters of a keyword, in upper case. -/
def letters (k : Keyword) : Text := k.spelling.toList

theorem mem_table (k : Keyword) : k ∈ table := by
  cases k <;> decide

theorem upper_letters (k : Keyword) : k.letters.upper = k.letters := by
  cases k <;> decide

/-! ### Whole words -/

/-- The keyword that a word spells in any mixture of ASCII cases. -/
def ofWord? (word : Text) : Option Keyword :=
  table.find? fun k => decide (k.letters.EqIgnoringCase word)

theorem eqIgnoringCase_of_ofWord? {word : Text} {k : Keyword} (h : ofWord? word = some k) :
    k.letters.EqIgnoringCase word := by
  simpa using List.find?_some h

/-! ### Keywords at the start of a text -/

/-- Whether a text begins with a word character, so that a word in front of it would go on. -/
def continuesWord : Text → Bool
  | [] => false
  | c :: _ => isWordChar c

/-- Cuts a text behind the keyword if it starts with it as a whole word: the part that spells the
keyword, and what follows. -/
def split? (k : Keyword) (t : Text) : Option (Text × Text) :=
  (Text.splitLetters? k.letters t).filter fun cut => !continuesWord cut.2

/-- A text starts with a keyword if a word that spells it, and no word character, comes first. -/
theorem split?_eq_some_iff {k : Keyword} {t spelled rest : Text} :
    k.split? t = some (spelled, rest) ↔
      spelled ++ rest = t ∧ spelled.upper = k.letters ∧ continuesWord rest = false := by
  rw [split?, Option.filter_eq_some_iff, Text.splitLetters?_eq_some_iff, upper_letters, and_assoc,
    Bool.not_eq_true']

/-- The two parts of a cut make up the text. -/
theorem append_of_split? {k : Keyword} {t spelled rest : Text}
    (h : k.split? t = some (spelled, rest)) : spelled ++ rest = t :=
  (split?_eq_some_iff.1 h).1

/-- The part in front of a cut is the keyword in some mixture of cases. -/
theorem upper_of_split? {k : Keyword} {t spelled rest : Text}
    (h : k.split? t = some (spelled, rest)) : spelled.upper = k.letters :=
  (split?_eq_some_iff.1 h).2.1

/-- The part in front of a cut is not empty. -/
theorem ne_nil_of_split? {k : Keyword} {t spelled rest : Text}
    (h : k.split? t = some (spelled, rest)) : spelled ≠ [] := by
  rintro rfl
  have hnil : k.letters = [] := (upper_of_split? h).symm
  cases k <;> exact absurd hnil (by decide)

end Keyword

end SqlLayout
