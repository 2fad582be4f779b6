import SqlLayout.Text.Basic

/-!
# Control sequences

A terminal does not show every character it is sent.  An escape character opens a sequence that
tells the terminal what to do, and other control characters stand for themselves.  A message that
quotes a foreign text shows only the characters of it that are neither part of such a sequence nor
control characters.  The kinds of sequences are told apart by the character behind the escape
character:

* an opening square bracket opens a control sequence, which goes on to a letter or a mark from `@`
  to `~`;
* a closing square bracket opens a system command, which goes on to the bell character;
* `P` opens a device control string, and `X`, `^` and `_` open strings that are not looked into;
  they go on to a character with the byte `9C` in its UTF-8 encoding;
* everything else is a short sequence, which consists of marks from space to `/` and one more
  character.

Tab, line feed, form feed and carriage return are shown.  If one of them stands in a short sequence
or a control sequence, the characters behind it are shown too, and the sequence is taken up again
at the next control character.

## Main definitions

* `isShown` : the class of characters that are shown outside of all sequences.
* `SequencePlace` : a place in a text, as the sequence that is open there.
* `SequenceReader` : such a place together with an interruption of the sequence.
* `Text.withoutControls` : a text without its control sequences and control characters.
-/

namespace SqlLayout

/-! ### Classes of characters -/

/-- The control characters that arrange a text: tab, line feed, form feed and carriage return. -/
def isArranging (c : Char) : Bool := c == '\t' || c == '\n' || c == '\x0c' || c == '\r'

/-- The characters that are shown outside of all sequences: all but the ASCII control characters
that do not arrange a text. -/
def isShown (c : Char) : Bool := isArranging c || (' ' ≤ c && c != '\x7f')

/-- The marks from space to `/`. -/
def isIntermediate (c : Char) : Bool := ' ' ≤ c && c ≤ '/'

/-- The digits and marks from `0` to `?`. -/
def isParameter (c : Char) : Bool := '0' ≤ c && c ≤ '?'

/-- The letters and marks from `@` to `~`. -/
def isFinal (c : Char) : Bool := '@' ≤ c && c ≤ '~'

/-- The characters that close a string: those with the byte `9C` in their UTF-8 encoding. -/
def closesString (c : Char) : Bool := (String.utf8EncodeChar c).contains 0x9C

/-! ### Places -/

/-- A place in a text: outside of all sequences; behind an escape character; behind the first mark
of a short sequence; in a control sequence; in a system command; at the start, in the parameters
or behind the first mark of a device control string; or in a string that is not looked into. -/
inductive SequencePlace where
  | outside
  | escape
  | short
  | control
  | system
  | device
  | deviceParameters
  | deviceMarks
  | string
  deriving DecidableEq

namespace SequencePlace

/-- The place behind a character that follows an escape character. -/
def opened (c : Char) : SequencePlace :=
  match c with
  | '[' => control
  | ']' => system
  | 'P' => device
  | 'X' | '^' | '_' => string
  | c => if isIntermediate c then short else if isParameter c || isFinal c then outside else escape

/-- The place behind a character that neither opens a sequence nor cancels one. -/
def advance (place : SequencePlace) (c : Char) : SequencePlace :=
  match place with
  | outside => outside
  | escape => opened c
  | short => if isParameter c || isFinal c then outside else short
  | control => if isFinal c then outside else control
  | system => if c = '\x07' then outside else system
  | device =>
    if isIntermediate c then deviceMarks
    else if isParameter c then deviceParameters
    else if isFinal c then string
    else device
  | deviceParameters =>
    if isIntermediate c then deviceMarks
    else if '<' ≤ c ∧ c ≤ '~' then string
    else deviceParameters
  | deviceMarks => if isParameter c || isFinal c then string else deviceMarks
  | string => if closesString c then outside else string

/-- The place behind a character.  An escape character opens a sequence everywhere, and the
characters `cancel` and `substitute` close every sequence. -/
def next (place : SequencePlace) (c : Char) : SequencePlace :=
  if c = '\x1b' then escape
  else if c = '\x18' ∨ c = '\x1a' then outside
  else place.advance c

/-- Whether a character that arranges a text is shown at a place.  Commands and strings take it
in. -/
def isInterruptible : SequencePlace → Bool
  | outside | escape | short | control => true
  | _ => false

end SequencePlace

/-! ### Reading -/

/-- A reader of a text with sequences: its place, and whether the sequence that is open there is
interrupted. -/
structure SequenceReader where
  place : SequencePlace
  interrupted : Bool
  deriving DecidableEq

namespace SequenceReader

/-- The reader in front of a text. -/
def start : SequenceReader := ⟨.outside, false⟩

/-- Whether the next character is shown. -/
def shows (r : SequenceReader) (c : Char) : Bool :=
  if r.interrupted || r.place == .outside then isShown c
  else r.place.isInterruptible && isArranging c

/-- The reader behind a character.  A character that is shown interrupts the sequence, and one
beyond ASCII closes it. -/
def next (r : SequenceReader) (c : Char) : SequenceReader :=
  if r.shows c then
    if c ≤ '\x7f' then ⟨r.place, true⟩ else start
  else ⟨r.place.next c, false⟩

/-- The characters of a text that a reader shows. -/
def shown (r : SequenceReader) : Text → Text
  | [] => []
  | c :: t => if r.shows c then c :: (r.next c).shown t else (r.next c).shown t

end SequenceReader

/-! ### Texts -/

namespace Text

/-- The text without its control sequences and control characters. -/
def withoutControls (t : Text) : Text := SequenceReader.start.shown t

end Text

end SqlLayout
