import SqlLayout.Layout.Indent
import SqlLayout.Layout.Items
import SqlLayout.Statement
import SqlLayout.Token.Stream

/-!
# Pages

Tokens are laid out on lines one by one.  What lies behind is finished and never changed; what
decides about the next token is the line that is still open, and the clause or join that the line
belongs to.

* A clause opens a line at the left margin.  Its body begins on the next line, one indent further
  in; only the argument of `LIMIT` and of `OFFSET` stays on the line of the clause.
* A join begins an indented line.
* `AND` and `OR` begin an indented line in the conditions of `WHERE`, `HAVING` and joins.
* In the lists behind `SELECT`, `FROM`, `GROUP BY` and `ORDER BY` each item has a line.
* Everything else goes on the open line, behind a space.

## Main definitions

* `Page` : the open line, and the clause or join that it belongs to.
* `Page.add` : the lines that a token finishes, and the page behind it.
* `Page.lines` : the lines of tokens.
* `Page.print` : tokens laid out as one text.
* `reformat` : the layout of a raw statement.

## Main results

* `Page.addAll_append` : tokens are laid out part by part.
-/

namespace SqlLayout

/-- What decides about the place of the next token: the open line, and the kind of the latest
clause or join. -/
structure Page where
  line : Text
  context : Option Kind
  deriving DecidableEq

namespace Page

/-- The page in front of all tokens. -/
def blank : Page := ⟨[], none⟩

/-- The open line as a finished one.  An empty line is dropped. -/
def close (p : Page) : List Text := if p.line.isEmpty then [] else [p.line]

/-- Whether the page shows the body of a list. -/
def showsList (p : Page) : Bool :=
  match p.context with
  | some .select | some .from | some .group | some .order => true
  | _ => false

/-- Whether the page shows a condition whose parts have lines of their own. -/
def showsCondition (p : Page) : Bool :=
  match p.context with
  | some .where | some .having | some .join => true
  | _ => false

/-- What stands in front of an indented line.  In front of the first clause or join nothing is
indented. -/
def margin (i : Indent) (p : Page) : Text := if p.context.isSome then i.pad else []

/-- Puts a text on the open line. -/
def write (i : Indent) (p : Page) (t : Text) : Page :=
  { p with line := if p.line.isEmpty then p.margin i ++ t else p.line ++ ' ' :: t }

/-- Puts items on lines, the first one on the open line.  Every line but the last ends in a
comma. -/
def writeItems (i : Indent) (p : Page) : List Text → List Text × Page
  | [] => ([], p)
  | [item] => ([], p.write i item)
  | item :: rest =>
    let later := writeItems i { p with line := [] } rest
    (((p.write i item).line ++ [',']) :: later.1, later.2)

/-- Puts a token on the page: the lines that it finishes, and the page behind it. -/
def add (i : Indent) (p : Page) (t : Token) : List Text × Page :=
  match t.kind with
  | .limit | .offset => (p.close, ⟨t.text, some t.kind⟩)
  | .select | .from | .where | .group | .having | .order =>
    (p.close ++ [t.text], ⟨[], some t.kind⟩)
  | .join => (p.close, ⟨p.margin i ++ t.text, some .join⟩)
  | .and | .or =>
    if p.showsCondition then (p.close, { p with line := p.margin i ++ t.text })
    else ([], p.write i t.text)
  | .str => if p.showsList then p.writeItems i t.text.items else ([], p.write i t.text)
  | .on | .compare | .in => ([], p.write i t.text)

/-- Puts tokens on the page: the lines that they finish, and the page behind them. -/
def addAll (i : Indent) (p : Page) : List Token → List Text × Page
  | [] => ([], p)
  | t :: ts =>
    let first := p.add i t
    let later := addAll i first.2 ts
    (first.1 ++ later.1, later.2)

/-- The lines of tokens. -/
def lines (i : Indent) (ts : List Token) : List Text :=
  let all := blank.addAll i ts
  all.1 ++ all.2.close

/-- Tokens laid out as one text: their lines, and a terminator behind the last one if they make a
terminated statement. -/
def print (i : Indent) (ts : List Token) (terminated : Bool) : Text :=
  ['\n'].intercalate (lines i ts) ++ Statement.ending terminated

/-- Tokens are laid out part by part. -/
theorem addAll_append (i : Indent) (p : Page) (ts us : List Token) :
    p.addAll i (ts ++ us) =
      ((p.addAll i ts).1 ++ ((p.addAll i ts).2.addAll i us).1,
        ((p.addAll i ts).2.addAll i us).2) := by
  induction ts generalizing p with
  | nil => rfl
  | cons t ts ih => simp [addAll, ih]

end Page

/-- The layout of a raw statement. -/
def reformat (i : Indent) (raw : Text) : Text :=
  let statement := Statement.ofText raw
  Page.print i statement.sql.tokens statement.terminated

end SqlLayout
