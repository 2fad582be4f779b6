import SqlLayout.Keyword
import SqlLayout.Lexeme
import SqlLayout.Segment

/-!
# Chunks of a text, one by one

The chunks of a text are defined from its end.  This file reads them from the start: what a chunk
can look like, and how the first chunk of a text is told from the characters in front of it.

## Main definitions

* `Quoting.StaysOpen` : a region is open in front of every character of a text.
* `Chunk.Sound` : a quoted region, a word or a single other character as it occurs in a text.
* `Chunk.Closed` : behind the chunk no quoted region is open.

## Main results

* `Text.chunks_gap_append` : blank characters in front of a text are a chunk of their own.
* `Text.chunks_text_append` : a sound chunk in front of a text that cannot continue it.
-/

namespace SqlLayout

/-! ### Quote characters -/

theorem isQuote_eq_true_iff {c : Char} : isQuote c = true ↔ ∃ q : Quote, c = q.char := by
  simp only [isQuote, Option.isSome_iff_exists, Quote.ofChar?_eq_some_iff]

theorem isBlank_quote (q : Quote) : isBlank q.char = false := by
  cases q <;> decide

theorem isWordChar_quote (q : Quote) : isWordChar q.char = false := by
  cases q <;> decide

theorem isQuote_of_isBlank {c : Char} (h : isBlank c = true) : isQuote c = false := by
  rw [Bool.eq_false_iff]
  intro hq
  obtain ⟨q, rfl⟩ := isQuote_eq_true_iff.1 hq
  simp [isBlank_quote] at h

theorem isQuote_of_isWordChar {c : Char} (h : isWordChar c = true) : isQuote c = false := by
  rw [Bool.eq_false_iff]
  intro hq
  obtain ⟨q, rfl⟩ := isQuote_eq_true_iff.1 hq
  simp [isWordChar_quote] at h

theorem isBlank_of_isWordChar {c : Char} (h : isWordChar c = true) : isBlank c = false := by
  rw [Bool.eq_false_iff]
  intro hb
  simp [isWordChar_of_isBlank hb] at h

namespace Quoting

theorem next_outside_of_not_isQuote {c : Char} (h : isQuote c = false) :
    outside.next c = outside :=
  (next_of_not_covers (s := outside) h).2

@[simp] theorem next_outside_quote (q : Quote) : outside.next q.char = inside q := by
  simp [next]

/-- A text without quote characters leaves the reader outside. -/
theorem after_outside_of_not_isQuote {t : Text} (h : ∀ c ∈ t, isQuote c = false) :
    outside.after t = outside := by
  induction t with
  | nil => rfl
  | cons c t ih =>
    rw [after_cons, next_outside_of_not_isQuote (h c List.mem_cons_self)]
    exact ih fun d hd => h d (List.mem_cons_of_mem c hd)

theorem eq_outside_of_not_isOpen {s : Quoting} (h : s.isOpen = false) : s = outside := by
  cases s with
  | outside => rfl
  | inside q => simp [isOpen] at h
  | escaped q => simp [isOpen] at h

/-- A region is open in front of every character of a text. -/
def StaysOpen : Quoting → Text → Prop
  | _, [] => True
  | s, c :: t => s.isOpen = true ∧ (s.next c).StaysOpen t

/-- What a region holds of a text: all of it, or the part up to the quote that closes it. -/
theorem exists_staysOpen_append {s : Quoting} (hs : s.isOpen = true) (t : Text) :
    ∃ body rest, t = body ++ rest ∧ s.StaysOpen body ∧ (s.after body = outside ∨ rest = []) := by
  induction t generalizing s with
  | nil => exact ⟨[], [], rfl, trivial, Or.inr rfl⟩
  | cons c t ih =>
    cases hnext : (s.next c).isOpen with
    | true =>
      obtain ⟨body, rest, rfl, hbody, hend⟩ := ih hnext
      exact ⟨c :: body, rest, rfl, ⟨hs, hbody⟩, hend⟩
    | false =>
      exact ⟨[c], t, rfl, ⟨hs, trivial⟩, Or.inl (eq_outside_of_not_isOpen hnext)⟩

end Quoting

/-! ### Sound chunks -/

namespace Chunk

/-- Whether a chunk is a word. -/
def isWord : Chunk → Bool
  | word _ => true
  | _ => false

/-- A quoted region, a word or a single other character as it occurs in a text. -/
def Sound : Chunk → Prop
  | quoted region => ∃ (q : Quote) (body : Text),
      region = q.char :: body ∧ (Quoting.inside q).StaysOpen body
  | word letters => letters ≠ [] ∧ ∀ c ∈ letters, isWordChar c = true
  | blank _ => False
  | other c => isQuote c = false ∧ SqlLayout.isBlank c = false ∧ isWordChar c = false

/-- Behind the chunk no quoted region is open. -/
def Closed (chunk : Chunk) : Prop := Quoting.outside.after chunk.text = .outside

/-- Only a quoted region can be left open. -/
theorem Sound.closed_or_quoted {chunk : Chunk} (h : chunk.Sound) :
    chunk.Closed ∨ ∃ region, chunk = quoted region := by
  cases chunk with
  | quoted region => exact Or.inr ⟨region, rfl⟩
  | word letters =>
    exact Or.inl (Quoting.after_outside_of_not_isQuote fun c hc => isQuote_of_isWordChar (h.2 c hc))
  | blank run => exact h.elim
  | other c =>
    refine Or.inl (Quoting.after_outside_of_not_isQuote fun d hd => ?_)
    rw [List.mem_singleton.1 hd]
    exact h.1

theorem Sound.closed_of_isWord {chunk : Chunk} (h : chunk.Sound) (hword : chunk.isWord = true) :
    chunk.Closed :=
  h.closed_or_quoted.resolve_right fun ⟨region, heq⟩ => by
    rw [heq] at hword
    cases hword

/-- A sound chunk begins with a character that is not blank, and with a word character exactly if
it is a word. -/
theorem Sound.exists_cons {chunk : Chunk} (h : chunk.Sound) :
    ∃ c t, chunk.text = c :: t ∧ SqlLayout.isBlank c = false ∧ isWordChar c = chunk.isWord := by
  cases chunk with
  | quoted region =>
    obtain ⟨q, body, rfl, -⟩ := h
    exact ⟨q.char, body, rfl, isBlank_quote q, isWordChar_quote q⟩
  | word letters =>
    obtain ⟨hne, hword⟩ := h
    obtain ⟨c, t, rfl⟩ := List.exists_cons_of_ne_nil hne
    have hc : isWordChar c = true := hword c List.mem_cons_self
    exact ⟨c, t, rfl, isBlank_of_isWordChar hc, hc⟩
  | blank run => exact h.elim
  | other c => exact ⟨c, [], rfl, h.2.1, h.2.2⟩

theorem Sound.text_ne_nil {chunk : Chunk} (h : chunk.Sound) : chunk.text ≠ [] := by
  obtain ⟨c, t, ht, -⟩ := h.exists_cons
  rw [ht]
  exact List.cons_ne_nil c t

theorem Sound.startsBlank_append {chunk : Chunk} (h : chunk.Sound) (u : Text) :
    Text.startsBlank (chunk.text ++ u) = false := by
  obtain ⟨c, t, ht, hc, -⟩ := h.exists_cons
  rw [ht]
  exact hc

theorem Sound.continuesWord_append {chunk : Chunk} (h : chunk.Sound) (u : Text) :
    Keyword.continuesWord (chunk.text ++ u) = chunk.isWord := by
  obtain ⟨c, t, ht, -, hc⟩ := h.exists_cons
  rw [ht]
  exact hc

/-- The class of the first chunk is that of the character which was put in front. -/
theorem exists_cons_eq (s : Quoting) (c : Char) (rest : List Chunk) :
    ∃ chunk rest', cons s c rest = chunk :: rest' ∧
      (chunk.isBlank = true → SqlLayout.isBlank c = true) ∧
      (chunk.isWord = true → isWordChar c = true) := by
  unfold cons consQuoted consBlank consWord
  repeat' split
  all_goals exact ⟨_, _, rfl, by simp_all [Chunk.isBlank], by simp_all [Chunk.isWord]⟩

/-- The chunk of a run of blank characters, if there are any. -/
def ofGap (gap : Text) : List Chunk := if gap.isEmpty then [] else [blank gap]

end Chunk

/-! ### The first chunk of a text -/

namespace Text

open Chunk

theorem chunks_cons (c : Char) (t : Text) :
    chunks (c :: t) = Chunk.cons .outside c (chunksFrom (Quoting.outside.next c) t) := rfl

/-- A character outside of quotes, in front of the chunks of what follows it. -/
theorem chunks_cons_of_not_isQuote {c : Char} (h : isQuote c = false) (t : Text) :
    chunks (c :: t) =
      if SqlLayout.isBlank c then consBlank c t.chunks
      else if isWordChar c then consWord c t.chunks
      else other c :: t.chunks := by
  rw [chunks_cons, Quoting.next_outside_of_not_isQuote h]
  simp only [Chunk.cons, Quoting.covers, h, Bool.false_eq_true, if_false]
  rfl

/-- The chunks of a text that a region holds are the part inside the region, and the chunks of
what follows the region. -/
theorem chunksFrom_append {s : Quoting} {body rest : Text} (hbody : s.StaysOpen body)
    (hne : body ≠ []) (hend : s.after body = .outside ∨ rest = []) :
    chunksFrom s (body ++ rest) = quoted body :: chunks rest := by
  induction body generalizing s with
  | nil => exact absurd rfl hne
  | cons c body ih =>
    obtain ⟨hs, hbody⟩ := hbody
    have hcovers := Quoting.covers_of_isOpen hs c
    rw [List.cons_append, chunksFrom, Chunk.cons, if_pos hcovers]
    rw [Quoting.after_cons] at hend
    cases body with
    | nil =>
      rcases hend with hout | rfl
      · have hout : s.next c = .outside := hout
        rw [hout]
        rfl
      · rw [List.nil_append]
        split <;> rfl
    | cons d body =>
      rw [if_pos hbody.1, ih hbody (List.cons_ne_nil d body) hend]
      rfl

/-- No run of blank characters is the first chunk of a text that begins with none. -/
theorem consBlank_chunks {t : Text} (h : t.startsBlank = false) (c : Char) :
    consBlank c t.chunks = blank [c] :: t.chunks := by
  cases t with
  | nil => rfl
  | cons d t =>
    obtain ⟨chunk, rest, heq, hblank, -⟩ :=
      exists_cons_eq .outside d (chunksFrom (Quoting.outside.next d) t)
    rw [chunks_cons, heq]
    cases chunk with
    | blank run => exact absurd (hblank rfl) (by simpa [startsBlank] using h)
    | _ => rfl

/-- No word is the first chunk of a text that begins with no word character. -/
theorem consWord_chunks {t : Text} (h : Keyword.continuesWord t = false) (c : Char) :
    consWord c t.chunks = word [c] :: t.chunks := by
  cases t with
  | nil => rfl
  | cons d t =>
    obtain ⟨chunk, rest, heq, -, hword⟩ :=
      exists_cons_eq .outside d (chunksFrom (Quoting.outside.next d) t)
    rw [chunks_cons, heq]
    cases chunk with
    | word letters => exact absurd (hword rfl) (by simpa [Keyword.continuesWord] using h)
    | _ => rfl

/-- Blank characters in front of a text are a chunk of their own. -/
theorem chunks_gap_append {gap t : Text} (hgap : gap.IsBlank) (ht : t.startsBlank = false) :
    chunks (gap ++ t) = ofGap gap ++ t.chunks := by
  induction gap with
  | nil => rfl
  | cons c gap ih =>
    have hc : SqlLayout.isBlank c = true := hgap c List.mem_cons_self
    rw [List.cons_append, chunks_cons_of_not_isQuote (isQuote_of_isBlank hc), if_pos hc,
      ih fun d hd => hgap d (List.mem_cons_of_mem c hd)]
    cases gap with
    | nil => exact consBlank_chunks ht c
    | cons d gap => rfl

theorem chunks_of_isBlank {gap : Text} (h : gap.IsBlank) : chunks gap = ofGap gap := by
  rw [← List.append_nil gap, chunks_gap_append h rfl, List.append_nil]
  exact List.append_nil _

/-- A sound chunk in front of a text that cannot continue it is the first chunk. -/
theorem chunks_text_append {chunk : Chunk} (hsound : chunk.Sound) {t : Text}
    (hend : chunk.Closed ∨ t = [])
    (hword : chunk.isWord = true → Keyword.continuesWord t = false) :
    chunks (chunk.text ++ t) = chunk :: t.chunks := by
  cases chunk with
  | quoted region =>
    obtain ⟨q, body, rfl, hbody⟩ := hsound
    have hend : (Quoting.inside q).after body = .outside ∨ t = [] := by
      simpa [Closed, text] using hend
    rw [text, List.cons_append, chunks_cons, Quoting.next_outside_quote, Chunk.cons,
      if_pos (by simp [Quoting.covers, isQuote]), Quoting.next_outside_quote]
    change consQuoted q.char (chunksFrom (.inside q) (body ++ t)) = _
    cases body with
    | nil =>
      rcases hend with hout | rfl
      · cases hout
      · rfl
    | cons c body => rw [chunksFrom_append hbody (List.cons_ne_nil c body) hend]; rfl
  | word letters =>
    obtain ⟨hne, hletters⟩ := hsound
    specialize hword rfl
    induction letters with
    | nil => exact absurd rfl hne
    | cons c letters ih =>
      have hc : isWordChar c = true := hletters c List.mem_cons_self
      rw [text, List.cons_append, chunks_cons_of_not_isQuote (isQuote_of_isWordChar hc),
        if_neg (by simp [isBlank_of_isWordChar hc]), if_pos hc]
      cases letters with
      | nil => exact consWord_chunks hword c
      | cons d letters =>
        have hrest : chunks (d :: letters ++ t) = word (d :: letters) :: t.chunks :=
          ih (Or.inl (Quoting.after_outside_of_not_isQuote fun e he =>
            isQuote_of_isWordChar (hletters e (List.mem_cons_of_mem c he))))
            (List.cons_ne_nil d letters) fun e he => hletters e (List.mem_cons_of_mem c he)
        rw [hrest]
        rfl
  | blank run => exact hsound.elim
  | other c =>
    obtain ⟨hquote, hblank, hwordChar⟩ := hsound
    change chunks (c :: t) = _
    rw [chunks_cons_of_not_isQuote hquote, if_neg (by simp [hblank]), if_neg (by simp [hwordChar])]

end Text

end SqlLayout
