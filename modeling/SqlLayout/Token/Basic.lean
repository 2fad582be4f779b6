import SqlLayout.Text.Basic

/-!
# Tokens

A statement is a sequence of tokens.  A token has a kind and a text; where it stood in the
statement is not recorded.

## Main definitions

* `Kind` : the kinds of token, listed by `Kind.table`.
* `Kind.name`, `Kind.ofName?` : the names of the kinds.
* `Kind.isKeyword`, `Kind.opensClause`, `Kind.joinsConditions` : classes of kinds.
* `Token` : a text with its kind.

## Main results

* `Kind.ofName?_name` : the names of two kinds differ.
-/

namespace SqlLayout

/-- What a token is: the opening of a clause, a join, a comparison, a conjunction, or free
text. -/
inductive Kind where
  /-- The word `SELECT`, alone or with one modifier. -/
  | select
  | «from»
  /-- Any join, from `JOIN` to `FULL OUTER JOIN`. -/
  | join
  | on
  | «where»
  /-- The phrase `GROUP BY`. -/
  | group
  | having
  /-- The phrase `ORDER BY`. -/
  | order
  | limit
  | offset
  /-- A comparison symbol or a `LIKE` phrase. -/
  | compare
  | and
  | or
  | «in»
  /-- Free text: names, literals, groups in parentheses and everything else. -/
  | str
  deriving DecidableEq

namespace Kind

/-- Every kind once. -/
def table : List Kind :=
  [select, .from, join, on, .where, group, having, order, limit, offset, compare, and, or, .in,
    str]

/-- The name of a kind. -/
def name : Kind → String
  | select => "SELECT"
  | .from => "FROM"
  | join => "JOIN"
  | on => "ON"
  | .where => "WHERE"
  | group => "GROUP"
  | having => "HAVING"
  | order => "ORDER"
  | limit => "LIMIT"
  | offset => "OFFSET"
  | compare => "COMPARE"
  | and => "AND"
  | or => "OR"
  | .in => "IN"
  | str => "STR"

/-- The kind of a name. -/
def ofName? (name : String) : Option Kind := table.find? (·.name == name)

theorem mem_table (k : Kind) : k ∈ table := by
  cases k <;> decide

@[simp] theorem ofName?_name (k : Kind) : ofName? k.name = some k := by
  cases k <;> decide

/-- Whether the tokens of a kind are written by the library and not copied from the statement:
every kind but free text. -/
def isKeyword (k : Kind) : Bool := k != str

/-- Whether a kind opens a clause that begins a line of its own at the left margin. -/
def opensClause : Kind → Bool
  | select | .from | .where | group | having | order | limit | offset => true
  | _ => false

/-- Whether a kind joins two conditions. -/
def joinsConditions : Kind → Bool
  | and | or => true
  | _ => false

end Kind

/-- A piece of a statement: its kind and its text. -/
structure Token where
  kind : Kind
  text : Text
  deriving DecidableEq

namespace Token

/-- A token of free text. -/
def str (text : Text) : Token := ⟨.str, text⟩

/-- Whether a token is of a kind. -/
def isOf (t : Token) (k : Kind) : Bool := t.kind == k

end Token

end SqlLayout
