import Mathlib.Data.List.Find
import SqlLayout.Proofs.Scan.Words
import SqlLayout.Proofs.Text.Collapse

/-!
# Hits among lexemes

Whether a phrase or a symbol stands at the start of a text can be read off its lexemes: a phrase by
the keywords that the first words spell, a symbol by characters with no gap between them.  Gaps
between the words of a phrase need not be looked at, since two words are never without one.

## Main definitions

* `Lexeme.keyword?` : the keyword that a lexeme spells.
* `Lexeme.spells`, `Lexeme.adjoins` : the lexemes of a phrase, and of a symbol.
* `Lexeme.hit?` : the number of lexemes of the hit at the start of lexemes, and its token.

## Main results

* `Lexeme.Tight.hit?_body` : the hit at the start of a text, read off its lexemes.
-/

namespace SqlLayout

namespace Lexeme

/-- The keyword that a lexeme spells, if it is a word that spells one. -/
def keyword? (x : Lexeme) : Option Keyword :=
  match x.chunk with
  | .word letters => Keyword.ofWord? letters
  | _ => none

/-- Whether lexemes begin with words that spell the given keywords. -/
def spells (ks : List Keyword) (L : List Lexeme) : Bool :=
  (ks.map some).isPrefixOf (L.map keyword?)

/-- Whether lexemes begin with the given characters, without a gap in front of any of them. -/
def adjoins : Text → List Lexeme → Bool
  | [], _ => true
  | _ :: _, [] => false
  | c :: s, x :: L => x.gap.isEmpty && x.chunk == .other c && adjoins s L

@[simp] theorem spells_nil (L : List Lexeme) : spells [] L = true := rfl

@[simp] theorem spells_cons_nil (k : Keyword) (ks : List Keyword) : spells (k :: ks) [] = false :=
  rfl

theorem spells_cons_cons (k : Keyword) (ks : List Keyword) (x : Lexeme) (L : List Lexeme) :
    spells (k :: ks) (x :: L) = (x.keyword? == some k && spells ks L) := by
  simp only [spells, List.map_cons, List.isPrefixOf]
  rw [BEq.comm]

theorem isWord_of_keyword? {x : Lexeme} {k : Keyword} (h : x.keyword? = some k) :
    x.chunk.isWord = true := by
  unfold keyword? at h
  split at h
  · rename_i letters hx
    rw [hx]
    rfl
  · cases h

end Lexeme

namespace Family

/-- The symbol of a family at the start of lexemes: its length, and its token. -/
def symbolRead? (f : Family) (L : List Lexeme) : Option (Nat × Token) :=
  (f.symbols.find? fun s => Lexeme.adjoins s (Lexeme.bare L)).map fun s =>
    (s.length, ⟨.compare, s⟩)

/-- The phrase of a family at the start of lexemes: the number of its words, and its token. -/
def phraseRead? (f : Family) (L : List Lexeme) : Option (Nat × Token) :=
  f.phrases.findSome? fun p =>
    if Lexeme.spells p.keywords L then some (p.keywords.length, p.token) else none

/-- The hit of a family at the start of lexemes. -/
def read? (f : Family) (L : List Lexeme) : Option (Nat × Token) :=
  (f.symbolRead? L).or (f.phraseRead? L)

end Family

/-- The hit at the start of lexemes: the number of lexemes that it takes, and its token. -/
def Lexeme.hit? (L : List Lexeme) : Option (Nat × Token) :=
  Family.table.findSome? fun f => f.read? L

namespace Lexeme

/-! ### Keywords and phrases -/

/-- The cut behind a keyword at the start of a text, read off the first lexeme. -/
theorem Tight.split?_keyword {tail : Text} {x : Lexeme} {L : List Lexeme} (h : Tight tail (x :: L))
    (k : Keyword) :
    k.split? (x.chunk.text ++ Text.ofLexemes L tail) =
      if x.keyword? = some k then some (x.chunk.text, Text.ofLexemes L tail) else none := by
  obtain ⟨-, hsound, -, hsep, hL⟩ := h
  cases hword : x.chunk.isWord with
  | true =>
    have hrest := hsep.continuesWord hL hword
    obtain ⟨gap, chunk⟩ := x
    cases chunk with
    | word letters => exact Keyword.split?_word_append hsound.2 hrest k
    | _ => cases hword
  | false =>
    rw [if_neg fun hk => by simp [isWord_of_keyword? hk] at hword]
    exact Keyword.split?_eq_none ((hsound.continuesWord_append _).trans hword) k

theorem isBlank_startsBlank {t : Text} (h : t.startsBlank = false) :
    t.takeWhile isBlank = [] ∧ t.trimStart = t := by
  cases t with
  | nil => exact ⟨rfl, rfl⟩
  | cons c t =>
    have hc : isBlank c = false := h
    exact ⟨by simp [hc], Text.trimStart_eq_self hc⟩

/-- The gap at the start of a text, and what stands behind it. -/
theorem takeWhile_gap_append {gap t : Text} (hgap : gap.IsBlank) (ht : t.startsBlank = false) :
    (gap ++ t).takeWhile isBlank = gap ∧ (gap ++ t).trimStart = t := by
  obtain ⟨htake, hdrop⟩ := isBlank_startsBlank ht
  constructor
  · rw [List.takeWhile_append_of_pos hgap, htake, List.append_nil]
  · rw [Text.trimStart, List.dropWhile_append_of_pos hgap]
    exact hdrop

theorem trimStart_eq_nil {gap : Text} (hgap : gap.IsBlank) : gap.trimStart = [] := by
  rw [← List.append_nil gap]
  exact (takeWhile_gap_append hgap rfl).2

/-- The cut behind keywords with gaps in front of them, read off the lexemes. -/
theorem Tight.splitOthers? {tail : Text} {L : List Lexeme} (h : Tight tail L)
    (hfirst : ∀ y ∈ L.head?, y.chunk.isWord = true → y.gap ≠ []) (ks : List Keyword) :
    Phrase.splitOthers? ks (Text.ofLexemes L tail) =
      if spells ks L then
        some (Text.ofLexemes (L.take ks.length) [], Text.ofLexemes (L.drop ks.length) tail)
      else none := by
  induction ks generalizing L with
  | nil => simp [Phrase.splitOthers?]
  | cons k ks ih =>
    rw [Phrase.splitOthers?]
    cases L with
    | nil =>
      rw [Text.ofLexemes_nil, trimStart_eq_nil h, Keyword.split?_eq_none rfl]
      simp
    | cons y L =>
      obtain ⟨htake, htrim⟩ := takeWhile_gap_append h.1
        (h.2.1.startsBlank_append (Text.ofLexemes L tail))
      rw [Text.ofLexemes_cons, htake, htrim, h.split?_keyword, spells_cons_cons]
      by_cases hk : y.keyword? = some k
      · have hword := isWord_of_keyword? hk
        have hgap : y.gap.isEmpty = false := by simpa using hfirst y rfl hword
        have hnext : ∀ z ∈ L.head?, z.chunk.isWord = true → z.gap ≠ [] := by
          intro z hz
          obtain ⟨M, rfl⟩ := List.head?_eq_some_iff.1 hz
          exact h.2.2.2.1 hword
        rw [if_pos hk, hk, Option.bind_some, ih h.2.2.2.2 hnext]
        cases hks : spells ks L with
        | false => simp [hgap]
        | true =>
          simp [hgap, Text.ofLexemes_cons, List.append_assoc]
      · simp [hk]

/-- The cut behind a phrase at the start of a text, read off the lexemes. -/
theorem Tight.split?_phrase {tail : Text} {L : List Lexeme} (h : Tight tail L) (p : Phrase) :
    p.split? (body L ++ tail) =
      if spells p.keywords L then
        some (body (L.take p.keywords.length), Text.ofLexemes (L.drop p.keywords.length) tail)
      else none := by
  rw [Phrase.split?]
  cases L with
  | nil =>
    have htail : Keyword.continuesWord tail = false := by
      cases tail with
      | nil => rfl
      | cons c tail => exact isWordChar_of_isBlank (h c List.mem_cons_self)
    rw [body, List.nil_append, Keyword.split?_eq_none htail, Phrase.keywords]
    rfl
  | cons x L =>
    have htext : body (x :: L) ++ tail = x.chunk.text ++ Text.ofLexemes L tail := by
      simp [body, Text.ofLexemes]
    rw [htext, h.split?_keyword, Phrase.keywords, spells_cons_cons]
    by_cases hk : x.keyword? = some p.first
    · have hword := isWord_of_keyword? hk
      have hnext : ∀ z ∈ L.head?, z.chunk.isWord = true → z.gap ≠ [] := by
        intro z hz
        obtain ⟨M, rfl⟩ := List.head?_eq_some_iff.1 hz
        exact h.2.2.2.1 hword
      rw [if_pos hk, hk, Option.bind_some, h.2.2.2.2.splitOthers? hnext]
      cases hks : spells p.others L with
      | false => simp
      | true => simp [body]
    · simp [hk]

/-! ### Symbols -/

theorem class_of_mem_symbols {f : Family} {s : Text} (hs : s ∈ f.symbols) :
    ∀ c ∈ s, isQuote c = false ∧ isBlank c = false ∧ isWordChar c = false := by
  have key : ∀ f : Family, ∀ s ∈ f.symbols,
      (s.all fun c => !isQuote c && !isBlank c && !isWordChar c) = true := by
    intro f
    cases f <;> decide
  intro c hc
  simpa [and_assoc] using List.all_eq_true.1 (key f s hs) c hc

/-- A chunk begins with a character of a symbol only if it is that character. -/
theorem isPrefixOf_chunk_append {chunk : Chunk} (h : chunk.Sound) {c : Char}
    (hquote : isQuote c = false) (hword : isWordChar c = false) (s rest : Text) :
    List.isPrefixOf (c :: s) (chunk.text ++ rest) =
      (chunk == .other c && List.isPrefixOf s rest) := by
  cases chunk with
  | quoted region =>
    obtain ⟨q, body, rfl, -⟩ := h
    have hc : (c == q.char) = false := by
      rw [beq_eq_false_iff_ne]
      rintro rfl
      simp [isQuote] at hquote
    simp [Chunk.text, List.isPrefixOf, hc]
  | word letters =>
    obtain ⟨hne, hletters⟩ := h
    obtain ⟨d, letters, rfl⟩ := List.exists_cons_of_ne_nil hne
    have hc : (c == d) = false := by
      rw [beq_eq_false_iff_ne]
      rintro rfl
      rw [hletters c List.mem_cons_self] at hword
      cases hword
    simp [Chunk.text, List.isPrefixOf, hc]
  | blank run => exact h.elim
  | other d =>
    have hchunk : (Chunk.other d == Chunk.other c) = (c == d) := by
      rw [Bool.eq_iff_iff, beq_iff_eq, beq_iff_eq, Chunk.other.injEq, eq_comm]
    rw [hchunk]
    rfl

/-- A symbol at the start of a text, read off the lexemes. -/
theorem Tight.isPrefixOf_ofLexemes {tail : Text} {L : List Lexeme} (h : Tight tail L) {s : Text}
    (hs : ∀ c ∈ s, isQuote c = false ∧ isBlank c = false ∧ isWordChar c = false) :
    List.isPrefixOf s (Text.ofLexemes L tail) = adjoins s L := by
  induction s generalizing L with
  | nil => rfl
  | cons c s ih =>
    obtain ⟨hquote, hblank, hword⟩ := hs c List.mem_cons_self
    have hne {d : Char} (hd : isBlank d = true) : (c == d) = false := by
      rw [beq_eq_false_iff_ne]
      rintro rfl
      rw [hblank] at hd
      cases hd
    cases L with
    | nil =>
      cases tail with
      | nil => rfl
      | cons d tail => simp [List.isPrefixOf, adjoins, hne (h d List.mem_cons_self)]
    | cons x L =>
      obtain ⟨gap, chunk⟩ := x
      cases gap with
      | cons d gap =>
        rw [Text.ofLexemes_cons, List.cons_append, List.isPrefixOf, hne (h.1 d List.mem_cons_self)]
        rfl
      | nil =>
        have ih := ih h.2.2.2.2 fun d hd => hs d (List.mem_cons_of_mem c hd)
        rw [Text.ofLexemes_cons, List.nil_append, isPrefixOf_chunk_append h.2.1 hquote hword, ih]
        rfl

theorem Tight.isPrefixOf_body {tail : Text} {L : List Lexeme} (h : Tight tail L) {s : Text}
    (hs : ∀ c ∈ s, isQuote c = false ∧ isBlank c = false ∧ isWordChar c = false) :
    List.isPrefixOf s (body L ++ tail) = adjoins s (Lexeme.bare L) := by
  rw [← ofLexemes_bare]
  exact h.bare.isPrefixOf_ofLexemes hs

theorem ofLexemes_take_of_adjoins {s : Text} {L : List Lexeme} (h : adjoins s L = true) :
    Text.ofLexemes (L.take s.length) [] = s := by
  induction s generalizing L with
  | nil => rfl
  | cons c s ih =>
    cases L with
    | nil => cases h
    | cons x L =>
      simp only [adjoins, Bool.and_eq_true, List.isEmpty_iff, beq_iff_eq] at h
      obtain ⟨⟨hgap, hchunk⟩, hs⟩ := h
      rw [List.length_cons, List.take_succ_cons, Text.ofLexemes_cons, ih hs, hgap, hchunk]
      rfl

theorem body_take_of_adjoins {s : Text} {L : List Lexeme} (h : adjoins s (Lexeme.bare L) = true) :
    body (L.take s.length) = s := by
  have htake : Lexeme.bare (L.take s.length) = (Lexeme.bare L).take s.length := by
    cases s with
    | nil => rfl
    | cons c s => cases L <;> rfl
  rw [body_eq_ofLexemes, htake, ofLexemes_take_of_adjoins h]

/-! ### Hits -/

/-- The hit of a family at the start of a text, read off the lexemes. -/
theorem Tight.hit?_family {tail : Text} {L : List Lexeme} (h : Tight tail L) (f : Family) :
    f.hit? (body L ++ tail) = (f.read? L).map fun r => ⟨body (L.take r.1), r.2⟩ := by
  have hsymbol : f.symbolHit? (body L ++ tail) =
      (f.symbolRead? L).map fun r => ⟨body (L.take r.1), r.2⟩ := by
    unfold Family.symbolHit? Family.symbolRead?
    rw [List.find?_congr fun s hs => h.isPrefixOf_body (class_of_mem_symbols hs), Option.map_map]
    refine Option.map_congr fun s hs => ?_
    have hadjoins : adjoins s (Lexeme.bare L) = true :=
      List.find?_some (p := fun s => adjoins s (Lexeme.bare L)) hs
    rw [Function.comp_apply, body_take_of_adjoins hadjoins]
  have hphrase : f.phraseHit? (body L ++ tail) =
      (f.phraseRead? L).map fun r => ⟨body (L.take r.1), r.2⟩ := by
    unfold Family.phraseHit? Family.phraseRead?
    rw [List.map_findSome?]
    congr 1
    funext p
    rw [h.split?_phrase, Function.comp_apply]
    split <;> rfl
  rw [Family.hit?, Family.read?, hsymbol, hphrase, Option.map_or]

/-- The hit at the start of a text, read off the lexemes. -/
theorem Tight.hit?_body {tail : Text} {L : List Lexeme} (h : Tight tail L) :
    Text.hit? (body L ++ tail) = (hit? L).map fun r => ⟨body (L.take r.1), r.2⟩ := by
  rw [Text.hit?_eq, Lexeme.hit?, List.map_findSome?]
  congr 1
  funext f
  exact h.hit?_family f

end Lexeme

end SqlLayout
