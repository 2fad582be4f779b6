import SqlLayout.Proofs.Text.Chunks

/-!
# Gaps written as spaces

A text is written with a space for each run of blank characters outside of quotes.  The run at its
end may be written as something else, or left out.  What is written for a character can be told from
what stands in front of it and behind it, without the chunks of the text.

## Main definitions

* `Chunk.write`, `Text.writeFrom` : chunks and texts with spaces for gaps, and some text for the
  last gap.
* `Text.narrowed` : a text whose gaps are single spaces, with no gap at the end.

## Main results

* `Text.writeFrom_cons`, `Text.writeFrom_cons_of_isBlank` : what is written for the first character.
* `Text.squeeze_eq_narrowed` : squeezing narrows each gap.
-/

namespace SqlLayout

namespace Chunk

/-- Chunks with one space for each run of blank characters, where `final` is written for a run at
their end. -/
def write (final : Text) : List Chunk → Text
  | [] => []
  | [blank _] => final
  | chunk :: rest => chunk.collapsed ++ write final rest

theorem write_space (chunks : List Chunk) : write [' '] chunks = chunks.flatMap collapsed := by
  fun_induction write [' '] chunks with
  | case1 => rfl
  | case2 run => rfl
  | case3 chunk rest _ ih => rw [ih, List.flatMap_cons]

theorem write_nil (chunks : List Chunk) :
    write [] chunks = (dropLastBlank chunks).flatMap collapsed := by
  fun_induction write [] chunks with
  | case1 => rfl
  | case2 run => rfl
  | case3 chunk rest hne ih => rw [ih, dropLastBlank, List.flatMap_cons]; exact hne

variable (final : Text) (c : Char) (rest : List Chunk)

theorem write_consQuoted : write final (consQuoted c rest) = c :: write final rest := by
  unfold consQuoted
  split <;> rfl

theorem write_consWord : write final (consWord c rest) = c :: write final rest := by
  unfold consWord
  split <;> rfl

/-- A blank character in front of a run of blank characters is not written. -/
theorem write_consBlank_consBlank (d : Char) :
    write final (consBlank c (consBlank d rest)) = write final (consBlank d rest) := by
  cases rest with
  | nil => rfl
  | cons chunk rest =>
    cases chunk with
    | blank run => cases rest <;> rfl
    | _ => rfl

end Chunk

namespace Text

/-- A part of a text with one space for each run of blank characters outside of quotes, where `s` is
the state of quotes in front of the part, and `final` is written for a run at its end. -/
def writeFrom (final : Text) (s : Quoting) (t : Text) : Text := Chunk.write final (chunksFrom s t)

variable {final : Text} {c : Char}

/-- A character that is kept, in front of a text: it is quoted, or it is not blank. -/
theorem writeFrom_cons {s : Quoting} (h : s.covers c = true ∨ isBlank c = false) (t : Text) :
    writeFrom final s (c :: t) = c :: writeFrom final (s.next c) t := by
  rw [writeFrom, chunksFrom, writeFrom]
  unfold Chunk.cons
  split
  · split
    · rw [Chunk.write_consQuoted]
    · rfl
  · rename_i hcovers
    rw [if_neg (by simp [h.resolve_left hcovers])]
    split
    · rw [Chunk.write_consWord]
    · rfl

/-- A blank character outside of quotes, in front of a text: it makes a space unless the text begins
with one that does, or nothing follows. -/
theorem writeFrom_cons_of_isBlank (h : isBlank c = true) (t : Text) :
    writeFrom final .outside (c :: t) =
      (if t.isEmpty then final else if t.startsBlank then [] else [' ']) ++
        writeFrom final .outside t := by
  have hchunks : chunksFrom .outside (c :: t) = Chunk.consBlank c t.chunks := by
    have hcons := chunks_cons_of_not_isQuote (isQuote_of_isBlank h) t
    rwa [if_pos h] at hcons
  rw [writeFrom, hchunks, writeFrom, ← chunks]
  cases t with
  | nil => exact (List.append_nil final).symm
  | cons d t =>
    cases hstart : startsBlank (d :: t) with
    | false =>
      obtain ⟨chunk, rest, hrest, -, -⟩ :=
        Chunk.exists_cons_eq .outside d (chunksFrom (Quoting.outside.next d) t)
      rw [consBlank_chunks hstart, chunks_cons, hrest]
      rfl
    | true =>
      have hd : isBlank d = true := hstart
      have hrest := chunks_cons_of_not_isQuote (isQuote_of_isBlank hd) t
      rw [if_pos hd] at hrest
      rw [hrest, Chunk.write_consBlank_consBlank]
      rfl

/-! ### Narrow gaps -/

/-- What is written for a character of a text, from what stands in front of it and behind it.  Of
the blank characters of a gap only the last counts.  It makes a space unless the text ends. -/
def narrowedAt (before : Text) (c : Char) (behind : Text) : Text :=
  if (Quoting.outside.after before).covers c = true ∨ isBlank c = false then [c]
  else if behind.isEmpty || behind.startsBlank then []
  else [' ']

/-- What is written for a text behind another one. -/
def narrowedBehind (before : Text) : Text → Text
  | [] => []
  | c :: t => narrowedAt before c t ++ narrowedBehind (before ++ [c]) t

/-- A text whose runs of blank characters outside of quotes are single spaces, with no such run at
its end. -/
def narrowed (t : Text) : Text := narrowedBehind [] t

theorem writeFrom_nil_eq_narrowedBehind (before t : Text) :
    writeFrom [] (Quoting.outside.after before) t = narrowedBehind before t := by
  induction t generalizing before with
  | nil => rfl
  | cons c t ih =>
    have ih := ih (before ++ [c])
    rw [Quoting.after_append] at ih
    rw [narrowedBehind, narrowedAt, ← ih]
    by_cases h : (Quoting.outside.after before).covers c = true ∨ isBlank c = false
    · rw [if_pos h, writeFrom_cons h]
      rfl
    · obtain ⟨hcovers, hblank⟩ := not_or.1 h
      obtain ⟨hout, hnext⟩ := Quoting.next_of_not_covers (Bool.not_eq_true _ ▸ hcovers)
      rw [if_neg h, Quoting.after_cons, hnext, hout,
        writeFrom_cons_of_isBlank (Bool.not_eq_false _ ▸ hblank)]
      cases t <;> rfl

/-- Squeezing a text narrows each of its gaps. -/
theorem squeeze_eq_narrowed (t : Text) : t.squeeze = t.narrowed := by
  rw [squeeze, ← Chunk.write_nil]
  exact writeFrom_nil_eq_narrowedBehind [] t

end Text

end SqlLayout
