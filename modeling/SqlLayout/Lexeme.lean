import SqlLayout.Quoting
import SqlLayout.Text.WordChar

/-!
# Lexemes

A text falls into quoted regions, words, runs of blank characters, and single other characters.
This view says what two texts have in common that differ in blank characters outside of quotes.

## Main definitions

* `Chunk` : a quoted region, a word, a run of blank characters, or a single other character.
* `Text.chunks` : the chunks of a text.
* `Text.collapse` : a text with one space for each run of blank characters.
* `Text.squeeze` : the same, with the run at the end of the text left out.
* `Text.lexemes` : the chunks of a text that are not blank.

## Main results

* `Text.flatMap_text_chunks` : the chunks of a text make up the text.
-/

namespace SqlLayout

/-- A part of a text that is not divided: a quoted region with its quotes, a longest run of word
characters, a longest run of blank characters, or a single other character. -/
inductive Chunk where
  | quoted (region : Text)
  | word (letters : Text)
  | blank (run : Text)
  | other (c : Char)
  deriving DecidableEq

namespace Chunk

/-- The text of a chunk. -/
def text : Chunk → Text
  | quoted region => region
  | word letters => letters
  | blank run => run
  | other c => [c]

/-- Whether a chunk is a run of blank characters. -/
def isBlank : Chunk → Bool
  | blank _ => true
  | _ => false

/-- Puts a character of a quoted region in front of chunks.  It goes to the first of them if that
is quoted too. -/
def consQuoted (c : Char) : List Chunk → List Chunk
  | quoted region :: rest => quoted (c :: region) :: rest
  | rest => quoted [c] :: rest

/-- Puts a word character in front of chunks.  It goes to the first of them if that is a word. -/
def consWord (c : Char) : List Chunk → List Chunk
  | word letters :: rest => word (c :: letters) :: rest
  | rest => word [c] :: rest

/-- Puts a blank character in front of chunks.  It goes to the first of them if that is blank. -/
def consBlank (c : Char) : List Chunk → List Chunk
  | blank run :: rest => blank (c :: run) :: rest
  | rest => blank [c] :: rest

/-- Puts a character in front of the chunks of the text behind it, where `s` is the state of
quotes in front of the character.  The quote that closes a region is the end of its chunk. -/
def cons (s : Quoting) (c : Char) (rest : List Chunk) : List Chunk :=
  if s.covers c then
    if (s.next c).isOpen then consQuoted c rest else quoted [c] :: rest
  else if SqlLayout.isBlank c then consBlank c rest
  else if isWordChar c then consWord c rest
  else other c :: rest

/-- A run of blank characters as one space, and every other chunk as it is. -/
def collapsed : Chunk → Text
  | blank _ => [' ']
  | chunk => chunk.text

/-- Chunks without the run of blank characters at their end. -/
def dropLastBlank : List Chunk → List Chunk
  | [] => []
  | [blank _] => []
  | chunk :: rest => chunk :: dropLastBlank rest

theorem flatMap_text_cons (s : Quoting) (c : Char) (rest : List Chunk) :
    (cons s c rest).flatMap text = c :: rest.flatMap text := by
  unfold cons consQuoted consBlank consWord
  grind [Chunk.text]

end Chunk

namespace Text

/-- The chunks of a text, where `s` is the state of quotes in front of it. -/
def chunksFrom : Quoting → Text → List Chunk
  | _, [] => []
  | s, c :: t => Chunk.cons s c (chunksFrom (s.next c) t)

/-- The chunks of a text. -/
def chunks (t : Text) : List Chunk := chunksFrom .outside t

/-- The text with one space for each run of blank characters outside of quotes. -/
def collapse (t : Text) : Text := t.chunks.flatMap Chunk.collapsed

/-- The text with one space for each run of blank characters outside of quotes, and without the
run at its end. -/
def squeeze (t : Text) : Text := (Chunk.dropLastBlank t.chunks).flatMap Chunk.collapsed

/-- The lexemes of a text: its quoted regions, its words and its single other characters. -/
def lexemes (t : Text) : List Chunk := t.chunks.filter fun chunk => !chunk.isBlank

theorem flatMap_text_chunksFrom (s : Quoting) (t : Text) :
    (chunksFrom s t).flatMap Chunk.text = t := by
  induction t generalizing s with
  | nil => rfl
  | cons c t ih => rw [chunksFrom, Chunk.flatMap_text_cons, ih]

/-- The chunks of a text make up the text. -/
theorem flatMap_text_chunks (t : Text) : t.chunks.flatMap Chunk.text = t :=
  flatMap_text_chunksFrom _ t

end Text

end SqlLayout
