import Mathlib.Data.List.TakeWhile
import SqlLayout.Proofs.Text.Chunks

/-!
# Texts as lists of lexemes

A text is a list of chunks that are not blank, each with the blank characters in front of it, and
the blank characters behind the last one.  Which lists of this kind come from a text is a condition
on neighbours only: two words need a gap between them, and a quoted region that is left open has
nothing behind it.  Scanning and printing are described on such lists.

## Main definitions

* `Lexeme` : a chunk with the gap in front of it.
* `Text.ofLexemes` : the text that lexemes make up.
* `Lexeme.Tight` : the condition on neighbours.
* `Text.toLexemes`, `Text.lastGap` : the lexemes of a text, and what lies behind them.
* `Lexeme.widen` : lexemes with more blank characters in front of the first of them.

## Main results

* `Text.tight_toLexemes`, `Text.ofLexemes_toLexemes` : every text is a tight list of lexemes.
* `Text.toLexemes_ofLexemes` : no text is two tight lists of lexemes.
* `Text.toLexemes_append` : the lexemes of two texts, one behind the other.
-/

namespace SqlLayout

/-- A chunk that is not blank, with the blank characters in front of it. -/
structure Lexeme where
  gap : Text
  chunk : Chunk
  deriving DecidableEq

namespace Lexeme

/-- The text of a lexeme with its gap. -/
def text (x : Lexeme) : Text := x.gap ++ x.chunk.text

/-- The chunks of a lexeme. -/
def chunks (x : Lexeme) : List Chunk := Chunk.ofGap x.gap ++ [x.chunk]

end Lexeme

/-- The text that lexemes make up, with blank characters behind the last of them. -/
def Text.ofLexemes (L : List Lexeme) (tail : Text) : Text := L.flatMap Lexeme.text ++ tail

@[simp] theorem Text.ofLexemes_nil (tail : Text) : ofLexemes [] tail = tail := rfl

theorem Text.ofLexemes_cons (x : Lexeme) (L : List Lexeme) (tail : Text) :
    ofLexemes (x :: L) tail = x.gap ++ (x.chunk.text ++ ofLexemes L tail) := by
  simp [ofLexemes, Lexeme.text]

theorem Text.ofLexemes_append (L M : List Lexeme) (tail : Text) :
    ofLexemes (L ++ M) tail = ofLexemes L [] ++ ofLexemes M tail := by
  simp [ofLexemes]

namespace Lexeme

/-- A word has a gap between it and a word behind it. -/
def Separate (x : Lexeme) : List Lexeme → Prop
  | [] => True
  | y :: _ => x.chunk.isWord = true → y.chunk.isWord = true → y.gap ≠ []

/-- The lexemes and the gap behind them come from a text: gaps are blank, chunks are sound, words
are apart, and only the last chunk may be left open, with nothing behind it. -/
def Tight (tail : Text) : List Lexeme → Prop
  | [] => tail.IsBlank
  | x :: L => x.gap.IsBlank ∧ x.chunk.Sound ∧ (x.chunk.Closed ∨ L = [] ∧ tail = []) ∧
      x.Separate L ∧ Tight tail L

/-! ### Parts of tight lists -/

theorem Tight.left {tail : Text} {L M : List Lexeme} (h : Tight tail (L ++ M)) : Tight [] L := by
  induction L with
  | nil => exact nofun
  | cons x L ih =>
    obtain ⟨hgap, hsound, hend, hsep, hL⟩ := h
    refine ⟨hgap, hsound, hend.imp_right fun ⟨hnil, _⟩ => ⟨(List.append_eq_nil_iff.1 hnil).1, rfl⟩,
      ?_, ih hL⟩
    cases L with
    | nil => trivial
    | cons y L => exact hsep

theorem Tight.right {tail : Text} {L M : List Lexeme} (h : Tight tail (L ++ M)) : Tight tail M := by
  induction L with
  | nil => exact h
  | cons x L ih => exact ih h.2.2.2.2

theorem Tight.isBlank_tail {tail : Text} {L : List Lexeme} (h : Tight tail L) : tail.IsBlank := by
  rw [← List.append_nil L] at h
  exact h.right

/-- Other blank characters may stand at the end, if there were any. -/
theorem Tight.with_tail {tail tail' : Text} {L : List Lexeme} (h : Tight tail L)
    (hblank : tail'.IsBlank) (hnil : tail = [] → tail' = []) : Tight tail' L := by
  induction L with
  | nil => exact hblank
  | cons x L ih =>
    obtain ⟨hgap, hsound, hend, hsep, hL⟩ := h
    exact ⟨hgap, hsound, hend.imp_right fun ⟨hL, htail⟩ => ⟨hL, hnil htail⟩, hsep, ih hL⟩

/-- Blank characters may be taken off the end. -/
theorem Tight.of_tail_append {inner outer : Text} {L : List Lexeme} (h : Tight (inner ++ outer) L) :
    Tight inner L :=
  h.with_tail (fun c hc => h.isBlank_tail c (List.mem_append_left outer hc))
    fun hnil => (List.append_eq_nil_iff.1 hnil).1

theorem Tight.without_tail {tail : Text} {L : List Lexeme} (h : Tight tail L) : Tight [] L :=
  h.with_tail nofun fun _ => rfl

theorem Tight.sound {tail : Text} {L : List Lexeme} (h : Tight tail L) :
    ∀ x ∈ L, x.chunk.Sound := by
  induction L with
  | nil => exact nofun
  | cons x L ih =>
    intro y hy
    rcases List.mem_cons.1 hy with rfl | hy
    · exact h.2.1
    · exact ih h.2.2.2.2 y hy

/-- Lexemes are closed if others stand behind them. -/
theorem Tight.closed_left {tail : Text} {L M : List Lexeme} (h : Tight tail (L ++ M))
    (hM : M ≠ []) : ∀ x ∈ L, x.chunk.Closed := by
  induction L with
  | nil => exact List.forall_mem_nil _
  | cons x L ih =>
    refine List.forall_mem_cons.2 ⟨h.2.2.1.resolve_right fun hnil => ?_, ih h.2.2.2.2⟩
    exact hM (List.append_eq_nil_iff.1 hnil.1).2

/-- A lexeme that may stand in the place of another one: it has all that the other one must have
among tight lexemes. -/
structure Fits (y x : Lexeme) : Prop where
  gap : y.gap.IsBlank
  gap_ne_nil : x.gap ≠ [] → y.gap ≠ []
  sound : y.chunk.Sound
  closed : x.chunk.Closed → y.chunk.Closed
  isWord : y.chunk.isWord = x.chunk.isWord

/-- Lexemes are tight again if others stand in their places. -/
theorem Tight.map {f : Lexeme → Lexeme} {tail : Text} {L : List Lexeme} (h : Tight tail L)
    (hf : ∀ x : Lexeme, x.gap.IsBlank → x.chunk.Sound → (f x).Fits x) : Tight tail (L.map f) := by
  induction L with
  | nil => exact h
  | cons x L ih =>
    obtain ⟨hgap, hsound, hend, hsep, hL⟩ := h
    have hx := hf x hgap hsound
    refine ⟨hx.gap, hx.sound, hend.imp hx.closed fun ⟨hnil, htail⟩ => ⟨by simp [hnil], htail⟩, ?_,
      ih hL⟩
    cases L with
    | nil => trivial
    | cons y L =>
      have hy := hf y hL.1 hL.2.1
      intro hxword hyword
      rw [hx.isWord] at hxword
      rw [hy.isWord] at hyword
      exact hy.gap_ne_nil (hsep hxword hyword)

/-! ### From lexemes to texts -/

theorem Tight.startsBlank_or {tail : Text} {L : List Lexeme} (h : Tight tail L) :
    (Text.ofLexemes L tail).startsBlank = true ∨ (L = [] ∧ tail = []) ∨
      ∃ chunk M, L = ⟨[], chunk⟩ :: M := by
  cases L with
  | nil =>
    cases tail with
    | nil => exact Or.inr (Or.inl ⟨rfl, rfl⟩)
    | cons c tail => exact Or.inl (h c List.mem_cons_self)
  | cons x L =>
    obtain ⟨gap, chunk⟩ := x
    cases gap with
    | nil => exact Or.inr (Or.inr ⟨chunk, L, rfl⟩)
    | cons c gap =>
      rw [Text.ofLexemes_cons]
      exact Or.inl (h.1 c List.mem_cons_self)

theorem continuesWord_of_startsBlank {t : Text} (h : t.startsBlank = true) :
    Keyword.continuesWord t = false := by
  cases t with
  | nil => rfl
  | cons c t => exact isWordChar_of_isBlank h

/-- No word goes on in the lexemes behind it. -/
theorem Separate.continuesWord {x : Lexeme} {tail : Text} {L : List Lexeme} (hx : x.Separate L)
    (hL : Tight tail L) (hword : x.chunk.isWord = true) :
    Keyword.continuesWord (Text.ofLexemes L tail) = false := by
  rcases hL.startsBlank_or with hblank | ⟨rfl, rfl⟩ | ⟨chunk, M, rfl⟩
  · exact continuesWord_of_startsBlank hblank
  · rfl
  · rw [Text.ofLexemes_cons, List.nil_append, hL.2.1.continuesWord_append, Bool.eq_false_iff]
    exact fun hchunk => hx hword hchunk rfl

/-- Nothing stands behind a lexeme that is left open. -/
theorem Tight.closed_or_nil {tail : Text} {x : Lexeme} {L : List Lexeme} (h : Tight tail (x :: L)) :
    x.chunk.Closed ∨ Text.ofLexemes L tail = [] := by
  refine h.2.2.1.imp_right fun hlast => ?_
  rw [hlast.1, hlast.2]
  rfl

/-- The chunks of the text that lexemes make up. -/
theorem Tight.chunks_ofLexemes {tail : Text} {L : List Lexeme} (h : Tight tail L) :
    (Text.ofLexemes L tail).chunks = L.flatMap chunks ++ Chunk.ofGap tail := by
  induction L with
  | nil => exact Text.chunks_of_isBlank h
  | cons x L ih =>
    have hend := h.closed_or_nil
    obtain ⟨hgap, hsound, -, hsep, hL⟩ := h
    rw [Text.ofLexemes_cons, Text.chunks_gap_append hgap (hsound.startsBlank_append _),
      Text.chunks_text_append hsound hend (hsep.continuesWord hL), ih hL]
    simp [chunks]

/-! ### From texts to lexemes -/

/-- The lexemes of chunks, where `gap` lies in front of them. -/
def ofChunks (gap : Text) : List Chunk → List Lexeme
  | [] => []
  | .blank run :: rest => ofChunks (gap ++ run) rest
  | chunk :: rest => ⟨gap, chunk⟩ :: ofChunks [] rest

/-- The blank characters at the end of chunks, where `gap` lies in front of them. -/
def lastGapOf (gap : Text) : List Chunk → Text
  | [] => gap
  | .blank run :: rest => lastGapOf (gap ++ run) rest
  | _ :: rest => lastGapOf [] rest

theorem ofChunks_cons_sound {chunk : Chunk} (h : chunk.Sound) (gap : Text) (rest : List Chunk) :
    ofChunks gap (chunk :: rest) = ⟨gap, chunk⟩ :: ofChunks [] rest := by
  cases chunk with
  | blank run => exact h.elim
  | _ => rfl

theorem lastGapOf_cons_sound {chunk : Chunk} (h : chunk.Sound) (gap : Text) (rest : List Chunk) :
    lastGapOf gap (chunk :: rest) = lastGapOf [] rest := by
  cases chunk with
  | blank run => exact h.elim
  | _ => rfl

theorem ofChunks_ofGap_append (gap : Text) (rest : List Chunk) :
    ofChunks [] (Chunk.ofGap gap ++ rest) = ofChunks gap rest := by
  cases gap <;> rfl

theorem lastGapOf_ofGap_append (gap : Text) (rest : List Chunk) :
    lastGapOf [] (Chunk.ofGap gap ++ rest) = lastGapOf gap rest := by
  cases gap <;> rfl

theorem Tight.ofChunks_flatMap_chunks {tail : Text} {L : List Lexeme} (h : Tight tail L) :
    ofChunks [] (L.flatMap chunks ++ Chunk.ofGap tail) = L ∧
      lastGapOf [] (L.flatMap chunks ++ Chunk.ofGap tail) = tail := by
  induction L with
  | nil => cases tail <;> exact ⟨rfl, rfl⟩
  | cons x L ih =>
    obtain ⟨hofChunks, hlastGap⟩ := ih h.2.2.2.2
    rw [List.flatMap_cons, chunks, List.append_assoc, List.append_assoc, ofChunks_ofGap_append,
      lastGapOf_ofGap_append, List.singleton_append, ofChunks_cons_sound h.2.1,
      lastGapOf_cons_sound h.2.1, hofChunks, hlastGap]
    exact ⟨rfl, rfl⟩

end Lexeme

namespace Text

/-- The lexemes of a text. -/
def toLexemes (t : Text) : List Lexeme := Lexeme.ofChunks [] t.chunks

/-- The blank characters behind the last lexeme of a text. -/
def lastGap (t : Text) : Text := Lexeme.lastGapOf [] t.chunks

/-- No text is two tight lists of lexemes. -/
theorem toLexemes_ofLexemes {tail : Text} {L : List Lexeme} (h : Lexeme.Tight tail L) :
    (ofLexemes L tail).toLexemes = L := by
  rw [toLexemes, h.chunks_ofLexemes]
  exact h.ofChunks_flatMap_chunks.1

theorem lastGap_ofLexemes {tail : Text} {L : List Lexeme} (h : Lexeme.Tight tail L) :
    (ofLexemes L tail).lastGap = tail := by
  rw [lastGap, h.chunks_ofLexemes]
  exact h.ofChunks_flatMap_chunks.2

theorem exists_chunk_append {c : Char} (t : Text) (hc : isBlank c = false) :
    ∃ chunk rest, chunk.Sound ∧ c :: t = Chunk.text chunk ++ rest ∧
      (chunk.Closed ∨ rest = []) ∧ (chunk.isWord = true → Keyword.continuesWord rest = false) := by
  cases hquote : isQuote c with
  | true =>
    obtain ⟨q, rfl⟩ := isQuote_eq_true_iff.1 hquote
    obtain ⟨body, rest, rfl, hbody, hend⟩ :=
      Quoting.exists_staysOpen_append (s := .inside q) rfl t
    refine ⟨.quoted (q.char :: body), rest, ⟨q, body, rfl, hbody⟩, rfl, ?_,
      fun hword => by cases hword⟩
    simpa [Chunk.Closed, Chunk.text] using hend
  | false =>
    cases hword : isWordChar c with
    | true =>
      have hletters : ∀ d ∈ (c :: t).takeWhile isWordChar, isWordChar d = true :=
        fun d hd => List.mem_takeWhile_imp hd
      refine ⟨.word ((c :: t).takeWhile isWordChar), (c :: t).dropWhile isWordChar,
        ⟨by simp [hword], hletters⟩, List.takeWhile_append_dropWhile.symm, Or.inl ?_, fun _ => ?_⟩
      · exact Quoting.after_outside_of_not_isQuote fun d hd => isQuote_of_isWordChar (hletters d hd)
      · cases hrest : (c :: t).dropWhile isWordChar with
        | nil => rfl
        | cons d rest =>
          have hhead := List.head?_dropWhile_not isWordChar (c :: t)
          rwa [hrest] at hhead
    | false =>
      refine ⟨.other c, t, ⟨hquote, hc, hword⟩, rfl, Or.inl ?_, fun hother => by cases hother⟩
      exact Quoting.next_outside_of_not_isQuote hquote

/-- Every text is a tight list of lexemes. -/
theorem exists_tight (t : Text) : ∃ L tail, Lexeme.Tight tail L ∧ ofLexemes L tail = t := by
  induction hn : t.length using Nat.strongRecOn generalizing t with
  | ind n ih =>
    have hgap := t.isBlank_takeWhile
    have ht := t.takeWhile_append_trimStart
    cases hstart : t.trimStart with
    | nil =>
      rw [hstart, List.append_nil] at ht
      exact ⟨[], t, ht ▸ hgap, rfl⟩
    | cons c u =>
      have hc : isBlank c = false := by
        have hdrop : t.dropWhile isBlank = c :: u := hstart
        have hhead := List.head?_dropWhile_not isBlank t
        rwa [hdrop] at hhead
      obtain ⟨chunk, rest, hsound, heq, hend, hword⟩ := exists_chunk_append u hc
      rw [hstart, heq] at ht
      have hshort : rest.length < n := by
        rw [← hn, ← ht]
        have hpos := List.length_pos_iff.2 hsound.text_ne_nil
        simp only [List.length_append]
        omega
      obtain ⟨L, tail, hL, rfl⟩ := ih _ hshort rest rfl
      refine ⟨⟨t.takeWhile isBlank, chunk⟩ :: L, tail, ⟨hgap, hsound, ?_, ?_, hL⟩, ?_⟩
      · refine hend.imp_right fun hnil => ?_
        obtain ⟨hflat, htail⟩ := List.append_eq_nil_iff.1 hnil
        refine ⟨?_, htail⟩
        cases L with
        | nil => rfl
        | cons y L =>
          have hy := hL.2.1.text_ne_nil
          simp [Lexeme.text, hy] at hflat
      · cases L with
        | nil => trivial
        | cons y L =>
          intro hx hy hnil
          have hcontinues := hword hx
          rw [ofLexemes_cons, hnil, List.nil_append, hL.2.1.continuesWord_append, hy] at hcontinues
          cases hcontinues
      · rw [ofLexemes_cons]
        exact ht

theorem tight_toLexemes (t : Text) : Lexeme.Tight t.lastGap t.toLexemes := by
  obtain ⟨L, tail, h, rfl⟩ := exists_tight t
  rw [toLexemes_ofLexemes h, lastGap_ofLexemes h]
  exact h

@[simp] theorem ofLexemes_toLexemes (t : Text) : ofLexemes t.toLexemes t.lastGap = t := by
  obtain ⟨L, tail, h, rfl⟩ := exists_tight t
  rw [toLexemes_ofLexemes h, lastGap_ofLexemes h]

/-! ### One text behind the other -/

theorem after_isBlank {gap : Text} (h : gap.IsBlank) (s : Quoting) (hs : s = .outside) :
    s.after gap = .outside := by
  subst hs
  exact Quoting.after_outside_of_not_isQuote fun c hc => isQuote_of_isBlank (h c hc)

/-- The text that lexemes make up ends outside of quotes exactly if all of them are closed. -/
theorem after_ofLexemes_eq_outside_iff {tail : Text} {L : List Lexeme} (h : Lexeme.Tight tail L) :
    Quoting.outside.after (ofLexemes L tail) = .outside ↔ ∀ x ∈ L, x.chunk.Closed := by
  induction L with
  | nil => simpa using after_isBlank h _ rfl
  | cons x L ih =>
    obtain ⟨hgap, -, hend, -, hL⟩ := h
    rw [ofLexemes_cons, Quoting.after_append, after_isBlank hgap _ rfl, Quoting.after_append]
    rcases hend with hclosed | ⟨rfl, rfl⟩
    · have hafter : Quoting.outside.after x.chunk.text = .outside := hclosed
      rw [hafter, ih hL]
      simp [hclosed]
    · simp [Chunk.Closed]

end Text

namespace Lexeme

/-- Lexemes with more blank characters in front of the first of them. -/
def widen (gap : Text) : List Lexeme → List Lexeme
  | [] => []
  | x :: L => ⟨gap ++ x.gap, x.chunk⟩ :: L

theorem ofLexemes_widen (gap tail : Text) {L : List Lexeme} (h : L ≠ []) :
    Text.ofLexemes (widen gap L) tail = gap ++ Text.ofLexemes L tail := by
  cases L with
  | nil => exact absurd rfl h
  | cons x L => simp only [widen, Text.ofLexemes_cons, List.append_assoc]

theorem Tight.widen {gap tail : Text} {L : List Lexeme} (h : Tight tail L) (hgap : gap.IsBlank) :
    Tight tail (widen gap L) := by
  cases L with
  | nil => exact h
  | cons x L =>
    refine ⟨fun c hc => ?_, h.2⟩
    rcases List.mem_append.1 hc with hc | hc
    · exact hgap c hc
    · exact h.1 c hc

/-- Closed lexemes in front of others are tight if no word goes on behind them. -/
theorem Tight.append {tail tail' : Text} {L M : List Lexeme} (hL : Tight tail L)
    (hclosed : ∀ x ∈ L, x.chunk.Closed) (hM : Tight tail' M) (hne : M ≠ [])
    (hword : ∀ x ∈ L.getLast?, x.chunk.isWord = true → tail = [] →
      Keyword.continuesWord (Text.ofLexemes M tail') = false) :
    Tight tail' (L ++ Lexeme.widen tail M) := by
  induction L with
  | nil => exact hM.widen hL
  | cons x L ih =>
    obtain ⟨hgap, hsound, -, hsep, hL⟩ := hL
    refine ⟨hgap, hsound, Or.inl (hclosed x List.mem_cons_self), ?_,
      ih hL (fun y hy => hclosed y (List.mem_cons_of_mem x hy)) ?_⟩
    · cases L with
      | cons y L => exact hsep
      | nil =>
        obtain ⟨y, M, rfl⟩ := List.exists_cons_of_ne_nil hne
        intro hx hy hnil
        obtain ⟨htail, hgap⟩ := List.append_eq_nil_iff.1 hnil
        have hcontinues := hword x rfl hx htail
        rw [Text.ofLexemes_cons, hgap, List.nil_append, hM.2.1.continuesWord_append] at hcontinues
        rw [hcontinues] at hy
        cases hy
    · intro y hy
      cases L with
      | nil => cases hy
      | cons z L => exact hword y (by rwa [List.getLast?_cons_cons])

theorem Tight.append_gap {tail gap : Text} {L : List Lexeme} (h : Tight tail L)
    (hclosed : ∀ x ∈ L, x.chunk.Closed) (hgap : gap.IsBlank) : Tight (tail ++ gap) L := by
  induction L with
  | nil =>
    intro c hc
    rcases List.mem_append.1 hc with hc | hc
    · exact h c hc
    · exact hgap c hc
  | cons x L ih =>
    exact ⟨h.1, h.2.1, Or.inl (hclosed x List.mem_cons_self), h.2.2.2.1,
      ih h.2.2.2.2 fun y hy => hclosed y (List.mem_cons_of_mem x hy)⟩

end Lexeme

namespace Text

/-- A text that ends outside of quotes, in front of one that begins with no word character: the gap
at the end of the first text goes to the first lexeme of the second. -/
theorem toLexemes_append {t u : Text} (ht : Quoting.outside.after t = .outside)
    (hu : Keyword.continuesWord u = false) :
    (t ++ u).toLexemes = t.toLexemes ++ Lexeme.widen t.lastGap u.toLexemes := by
  obtain ⟨L, tail, hL, rfl⟩ := exists_tight t
  obtain ⟨M, tail', hM, rfl⟩ := exists_tight u
  have hclosed := (after_ofLexemes_eq_outside_iff hL).1 ht
  rw [toLexemes_ofLexemes hL, lastGap_ofLexemes hL, toLexemes_ofLexemes hM]
  cases M with
  | nil =>
    have h := hL.append_gap hclosed hM
    have heq : ofLexemes L (tail ++ tail') = ofLexemes L tail ++ ofLexemes [] tail' := by
      simp [ofLexemes]
    rw [← heq, toLexemes_ofLexemes h]
    exact (List.append_nil L).symm
  | cons y M =>
    have hne := List.cons_ne_nil y M
    have heq : ofLexemes (L ++ Lexeme.widen tail (y :: M)) tail' =
        ofLexemes L tail ++ ofLexemes (y :: M) tail' := by
      rw [ofLexemes_append, Lexeme.ofLexemes_widen _ _ hne]
      simp [ofLexemes]
    rw [← heq, toLexemes_ofLexemes (hL.append hclosed hM hne fun _ _ _ _ => hu)]

/-- Blank characters in front of a text go to its first lexeme. -/
theorem toLexemes_gap_append {gap : Text} (hgap : gap.IsBlank) (t : Text) :
    (gap ++ t).toLexemes = Lexeme.widen gap t.toLexemes := by
  obtain ⟨L, tail, hL, rfl⟩ := exists_tight t
  rw [toLexemes_ofLexemes hL]
  cases L with
  | nil =>
    have h : Lexeme.Tight (gap ++ tail) [] := Lexeme.Tight.append_gap hgap nofun hL
    exact toLexemes_ofLexemes h
  | cons x L =>
    rw [← Lexeme.ofLexemes_widen _ _ (List.cons_ne_nil x L), toLexemes_ofLexemes (hL.widen hgap)]

end Text

end SqlLayout
