import SqlLayout.Lexeme
import SqlLayout.Segment

/-!
# The tokens of a text

The segments of a text make its tokens.  A keyword segment makes one by itself.  Words with no
keyword between them make one token of free text, in which they are joined by single spaces; inside
a word each run of blank characters outside of quotes becomes one space.

## Main definitions

* `Text.appendWord` : free text with one more word.
* `Text.freeTokens` : the token of free text, if there is any.
* `Segment.tokensAfter` : the tokens of segments, behind free text that is not yet a token.
* `Text.tokens` : the tokens of a text.
* `Text.tokensIn` : the same with the families tried in a given order.
-/

namespace SqlLayout

namespace Text

/-- Free text with one more word behind it. -/
def appendWord (free word : Text) : Text :=
  if free.isEmpty then word.squeeze else free ++ ' ' :: word.squeeze

/-- The token that free text makes.  Blank characters at its ends are left out, and there is no
token without text. -/
def freeTokens (free : Text) : List Token :=
  if free.trim.isEmpty then [] else [.str free.trim]

@[simp] theorem freeTokens_nil : freeTokens [] = [] := rfl

end Text

namespace Segment

/-- The tokens of segments, behind free text that is not yet a token. -/
def tokensAfter (free : Text) : List Segment → List Token
  | [] => free.freeTokens
  | gap _ :: rest => tokensAfter free rest
  | keyword hit :: rest => free.freeTokens ++ hit.token :: tokensAfter [] rest
  | word letters :: rest => tokensAfter (free.appendWord letters) rest

end Segment

/-- The tokens of a text, with the families tried in a given order. -/
def Text.tokensIn (order : List Family) (t : Text) : List Token :=
  Segment.tokensAfter [] (segmentsFromIn order 0 t)

/-- The tokens of a text. -/
def Text.tokens (t : Text) : List Token := t.tokensIn Family.table

theorem Text.tokens_eq (t : Text) : t.tokens = Segment.tokensAfter [] t.segments := rfl

@[simp] theorem Text.tokens_nil : tokens [] = [] := rfl

end SqlLayout
