import SqlLayout.Proofs.Scan.Families
import SqlLayout.Proofs.Text.LetterCase
import SqlLayout.Proofs.Text.Offsets

/-!
# Readers by byte offsets

Keywords, phrases, hits and words are found here by a reader that knows a text by its bytes.  The
reader adds up the lengths of keywords, gaps and characters, and cuts the text at the offsets that
come out.  None of its cuts is refused, and it reads what is read from the characters of the text.

The one cut that it cannot be sure of is the one behind as many bytes as a keyword has letters,
which may lie inside of a character; there it asks whether the cut is possible.

## Main definitions

* `Keyword.extent`, `Phrase.extent` : the number of bytes of a keyword or a phrase at the start of a
  text.
* `Family.found`, `Text.found` : the hit at the start of a text, with the number of its bytes.
* `Text.wordExtent` : the word at the start of a text, with the number of its bytes.

## Main results

* `Keyword.extent_eq`, `Phrase.extent_eq`, `Family.found_eq`, `Text.wordExtent_eq` : the readers
  refuse no cut, and find what stands at the start of a text.
-/

namespace SqlLayout

/-! ### Keywords and phrases -/

namespace Keyword

/-- The number of bytes of the keyword at the start of a text, if it stands there as a whole
word. -/
def extent (k : Keyword) (t : Text) : Except BadCut (Option Nat) :=
  match t.splitBytes? k.letters.utf8Size with
  | none => pure none
  | some cut =>
    if k.letters.EqIgnoringCase cut.1 then do
      let rest ← t.sliceFrom k.letters.utf8Size
      return if continuesWord rest then none else some k.letters.utf8Size
    else pure none

/-- A text starts with a keyword if as many bytes as the keyword has letters can be cut off, spell
it, and have no word character behind them. -/
theorem split?_eq_filter (k : Keyword) (t : Text) :
    k.split? t = (t.splitBytes? k.letters.utf8Size).filter fun cut =>
      decide (k.letters.EqIgnoringCase cut.1) && !continuesWord cut.2 := by
  ext ⟨spelled, rest⟩
  rw [split?_eq_some_iff, Option.filter_eq_some_iff, Text.splitBytes?_eq_some_iff,
    Bool.and_eq_true, decide_eq_true_eq, Bool.not_eq_true', Text.EqIgnoringCase, upper_letters]
  constructor
  · rintro ⟨rfl, hspelled, hrest⟩
    have hsize : spelled.utf8Size = k.letters.utf8Size :=
      Text.utf8Size_congr_upper (hspelled.trans k.upper_letters.symm)
    exact ⟨⟨rfl, hsize⟩, hspelled.symm, hrest⟩
  · rintro ⟨⟨rfl, -⟩, hspelled, hrest⟩
    exact ⟨rfl, hspelled.symm, hrest⟩

/-- The cut behind the letters of a keyword is never refused, since the letters have been found. -/
theorem extent_eq (k : Keyword) (t : Text) :
    k.extent t = pure ((k.split? t).map fun cut => cut.1.utf8Size) := by
  rw [extent, split?_eq_filter]
  cases hcut : t.splitBytes? k.letters.utf8Size with
  | none => rfl
  | some cut =>
    obtain ⟨head, rest⟩ := cut
    obtain ⟨rfl, hsize⟩ := Text.splitBytes?_eq_some_iff.1 hcut
    by_cases hspelled : k.letters.EqIgnoringCase head
    · simp only [← hsize, Text.sliceFrom_append, pure_bind, if_pos hspelled]
      cases hrest : continuesWord rest <;> simp [Option.filter, hspelled, hrest]
    · simp [Option.filter, hspelled]

end Keyword

namespace Phrase

/-- The number of bytes up to the end of keywords that each have blank characters in front of them,
where `i` bytes have been read in front of these. -/
def extentFrom (t : Text) : List Keyword → Nat → Except BadCut (Option Nat)
  | [], i => pure (some i)
  | k :: ks, i => do
    let gap := (← t.sliceFrom i).gapSize
    if gap = 0 then return none
    match ← k.extent (← t.sliceFrom (i + gap)) with
    | none => return none
    | some n => extentFrom t ks (i + gap + n)

/-- The number of bytes of the phrase at the start of a text, if it stands there. -/
def extent (p : Phrase) (t : Text) : Except BadCut (Option Nat) := do
  match ← p.first.extent (← t.sliceFrom 0) with
  | none => return none
  | some n => extentFrom t p.others n

theorem extentFrom_append (u v : Text) (ks : List Keyword) :
    extentFrom (u ++ v) ks u.utf8Size =
      pure ((splitOthers? ks v).map fun cut => (u ++ cut.1).utf8Size) := by
  induction ks generalizing u v with
  | nil => simp [extentFrom, splitOthers?]
  | cons k ks ih =>
    have hgap : u.utf8Size + v.gapSize = (u ++ v.takeWhile isBlank).utf8Size := by
      rw [Text.utf8Size_append, Text.gapSize_eq]
    have htext : u ++ v = u ++ v.takeWhile isBlank ++ v.trimStart := by
      rw [List.append_assoc, Text.takeWhile_append_trimStart]
    rw [extentFrom, splitOthers?, Text.sliceFrom_append, pure_bind]
    by_cases hnone : v.takeWhile isBlank = []
    · simp [Text.gapSize_eq, hnone]
    · have hsome : v.gapSize ≠ 0 := by rwa [Text.gapSize_eq, ne_eq, Text.utf8Size_eq_zero_iff]
      simp only [Text.sliceFrom_append_gapSize, pure_bind, Keyword.extent_eq, if_neg hsome,
        List.isEmpty_iff, if_neg hnone]
      cases hword : k.split? v.trimStart with
      | none => rfl
      | some word =>
        obtain ⟨spelled, rest⟩ := word
        -- the gap and the keyword have been read, and the next keywords follow them
        have hread : u ++ v = u ++ v.takeWhile isBlank ++ spelled ++ rest := by
          rw [htext, List.append_assoc _ spelled, Keyword.append_of_split? hword]
        have hsize : u.utf8Size + v.gapSize + spelled.utf8Size =
            (u ++ v.takeWhile isBlank ++ spelled).utf8Size := by
          rw [hgap, ← Text.utf8Size_append]
        simp only [Option.map_some, Option.bind_some]
        rw [hsize, hread, ih, Option.map_map]
        simp [Function.comp_def]

/-- No cut of a reader of phrases is refused. -/
theorem extent_eq (p : Phrase) (t : Text) :
    p.extent t = pure ((p.split? t).map fun cut => cut.1.utf8Size) := by
  have hslice : t.sliceFrom 0 = pure t := Text.sliceFrom_append [] t
  rw [extent, split?, hslice, pure_bind, Keyword.extent_eq, pure_bind]
  cases hword : p.first.split? t with
  | none => rfl
  | some word =>
    obtain ⟨spelled, rest⟩ := word
    obtain rfl := Keyword.append_of_split? hword
    simp only [Option.map_some, Option.bind_some]
    rw [extentFrom_append, Option.map_map]
    rfl

end Phrase

/-! ### Hits -/

/-- What was found at the start of a text: the number of bytes that were read, and the token they
make. -/
structure Found where
  size : Nat
  token : Token
  deriving DecidableEq

/-- A hit with the number of its bytes. -/
def Hit.found (h : Hit) : Found := ⟨h.source.utf8Size, h.token⟩

namespace Keyword

/-- The number of bytes up to the end of a keyword with blank characters in front of it, where `i`
bytes have been read in front of these.  Whether there are blank characters is asked last. -/
def extentBehind (t : Text) (i : Nat) (k : Keyword) : Except BadCut (Option Nat) := do
  let gap := (← t.sliceFrom i).gapSize
  match ← k.extent (← t.sliceFrom (i + gap)) with
  | none => return none
  | some n => return if 0 < gap then some (i + gap + n) else none

/-- Behind `SELECT` stands a keyword exactly where the two of them make a phrase. -/
theorem extentBehind_eq {t spelled rest : Text} (h : select.split? t = some (spelled, rest))
    (k : Keyword) :
    extentBehind t spelled.utf8Size k =
      pure ((Phrase.split? ⟨.select, .select, [k]⟩ t).map fun cut => cut.1.utf8Size) := by
  rw [Phrase.split?_select_singleton h]
  obtain rfl := append_of_split? h
  rw [extentBehind, Text.sliceFrom_append, pure_bind]
  simp only [Text.sliceFrom_append_gapSize, pure_bind, extent_eq, split?_eq_ite]
  by_cases hword : ofWord? (rest.trimStart.takeWhile isWordChar) = some k
  · by_cases hgap : rest.takeWhile isBlank = []
    · simp [hword, hgap, Text.gapSize_eq]
    · have hpos : 0 < Text.utf8Size (rest.takeWhile isBlank) :=
        Nat.pos_of_ne_zero fun h => hgap (Text.utf8Size_eq_zero_iff.1 h)
      simp [hword, hgap, hpos, Text.gapSize_eq, Text.utf8Size_append, Nat.add_assoc]
  · simp [hword]

end Keyword

namespace Family

/-- The word `SELECT` at the start of a text, with the modifier behind it if there is one. -/
def foundSelect (t : Text) : Except BadCut (Option Found) := do
  match ← Keyword.select.extent t with
  | none => return none
  | some i =>
    let merged ← Keyword.modifiers.findSomeM? fun k => do
      return (← k.extentBehind t i).map fun n => ⟨n, Phrase.token ⟨.select, .select, [k]⟩⟩
    match merged with
    | some found => return some found
    | none => return some ⟨i, Phrase.token ⟨.select, .select, []⟩⟩

/-- What a family finds at the start of a text. -/
def found (f : Family) (t : Text) : Except BadCut (Option Found) :=
  if f = select then foundSelect t
  else
    match f.symbols.find? fun s => List.isPrefixOf s t with
    | some s => pure (some ⟨Text.utf8Size s, ⟨.compare, s⟩⟩)
    | none => f.phrases.findSomeM? fun p => do
      return (← p.extent t).map fun n => ⟨n, p.token⟩

theorem foundSelect_eq (t : Text) :
    foundSelect t = pure ((select.hit? t).map Hit.found) := by
  rw [foundSelect, Keyword.extent_eq, pure_bind]
  cases hword : Keyword.select.split? t with
  | none =>
    rw [hit?_select, hword]
    rfl
  | some word =>
    obtain ⟨spelled, rest⟩ := word
    have hbare : Phrase.split? ⟨.select, .select, []⟩ t = some (spelled, rest) := by
      simp [Phrase.split?, Phrase.splitOthers?, hword]
    have hmerged : (Keyword.modifiers.findSome? fun k =>
        ((Phrase.split? ⟨.select, .select, [k]⟩ t).map fun cut => cut.1.utf8Size).map fun n =>
          Found.mk n (Phrase.token ⟨.select, .select, [k]⟩)) =
        (Keyword.modifiers.findSome? fun k =>
          (Phrase.split? ⟨.select, .select, [k]⟩ t).map fun cut =>
            Hit.mk cut.1 (Phrase.token ⟨.select, .select, [k]⟩)).map Hit.found := by
      simp only [List.map_findSome?, Option.map_map, Function.comp_def, Hit.found]
    simp only [Option.map_some, Keyword.extentBehind_eq hword, pure_bind, List.findSomeM?_pure]
    -- the phrases with a modifier are tried first, and the bare word comes last
    rw [hmerged, hit?, symbolHit?, phraseHit?, phrases, List.findSome?_append, List.findSome?_map,
      List.findSome?_singleton, hbare, Function.comp_def]
    cases Keyword.modifiers.findSome? fun k =>
      (Phrase.split? ⟨.select, .select, [k]⟩ t).map fun cut =>
        Hit.mk cut.1 (Phrase.token ⟨.select, .select, [k]⟩) <;> rfl

/-- No cut of a family is refused. -/
theorem found_eq (f : Family) (t : Text) : f.found t = pure ((f.hit? t).map Hit.found) := by
  rw [found]
  split
  · rename_i h
    rw [h, foundSelect_eq]
  · simp only [Phrase.extent_eq, pure_bind, List.findSomeM?_pure, hit?, symbolHit?, phraseHit?]
    cases hsymbol : f.symbols.find? fun s => List.isPrefixOf s t with
    | some s => rfl
    | none =>
      simp only [Option.map_none, Option.none_or, List.map_findSome?, Option.map_map,
        Function.comp_def, Hit.found]

end Family

namespace Text

/-- What the first family that has a hit at the start of a text finds there. -/
def found (t : Text) : Except BadCut (Option Found) := Family.table.findSomeM? fun f => f.found t

/-- Whether a phrase or a symbol is found at the start of a text. -/
def finds (t : Text) : Except BadCut Bool :=
  Family.table.anyM fun f => do return (← f.found t).isSome

theorem found_eq (t : Text) : t.found = pure (t.hit?.map Hit.found) := by
  simp only [found, Family.found_eq, List.findSomeM?_pure]
  rw [hit?_eq, List.map_findSome?]
  rfl

theorem finds_eq (t : Text) : t.finds = pure t.hasHit := by
  simp only [finds, Family.found_eq, pure_bind, Option.isSome_map, List.anyM_pure]
  rw [hasHit, hit?_eq, List.isSome_findSome?]

/-! ### Words -/

/-- Whether a word of free text ends in front of a character, at a byte offset of the text that
begins with the word.  It never ends in front of its first character. -/
def endsWordAt (t : Text) (n : Nesting) (closed : Bool) (i : Nat) (c : Char) :
    Except BadCut Bool := do
  if !n.isTop || i = 0 then return false
  if isBlank c then return true
  if (← t.sliceFrom i).startsSymbol then return true
  if !closed then return false
  (← t.sliceFrom i).finds

/-- The end of the word at the start of a text, as a byte offset, and the characters of the word
from another offset on.  Behind that offset stand the given characters. -/
def wordExtentFrom (t : Text) (n : Nesting) (closed : Bool) (i : Nat) :
    Text → Except BadCut (Nat × Text)
  | [] => pure (t.utf8Size, [])
  | c :: rest => do
    if ← t.endsWordAt n closed i c then return (i, [])
    let word ← wordExtentFrom t (n.next c) (n.closes c) (i + c.utf8Size) rest
    return (word.1, c :: word.2)

/-- The number of bytes of the word at the start of a text, and its characters. -/
def wordExtent (t : Text) : Except BadCut (Nat × Text) := wordExtentFrom t .start false 0 t

/-- A word that has begun ends where the text behind its first characters ends a word. -/
theorem endsWordAt_append {u : Text} (hu : u ≠ []) (n : Nesting) (closed : Bool) (c : Char)
    (rest : Text) :
    endsWordAt (u ++ c :: rest) n closed u.utf8Size c =
      pure (n.isTop && endsWord closed (c :: rest)) := by
  have hpos : u.utf8Size ≠ 0 := mt utf8Size_eq_zero_iff.1 hu
  simp only [endsWordAt, sliceFrom_append, pure_bind, finds_eq, endsWord_eq, startsBlank]
  cases n.isTop with
  | false => rfl
  | true =>
    cases isBlank c with
    | true => simp [hpos]
    | false =>
      cases startsSymbol (c :: rest) with
      | true => simp [hpos]
      | false => cases closed <;> simp [hpos]

theorem wordExtentFrom_append {u : Text} (hu : u ≠ []) (n : Nesting) (closed : Bool) (v : Text) :
    wordExtentFrom (u ++ v) n closed u.utf8Size v =
      pure ((u ++ wordTail n closed v).utf8Size, wordTail n closed v) := by
  induction v generalizing u n closed with
  | nil => simp [wordExtentFrom]
  | cons c v ih =>
    have hread : u ++ c :: v = u ++ [c] ++ v := by simp
    have hsize : u.utf8Size + c.utf8Size = (u ++ [c]).utf8Size := (utf8Size_concat u c).symm
    have htail := ih (List.append_ne_nil_of_right_ne_nil u (List.cons_ne_nil c [])) (n.next c)
      (n.closes c)
    rw [wordExtentFrom, endsWordAt_append hu, pure_bind, wordTail_cons]
    split
    · simp
    · rw [hsize, hread, htail, pure_bind, List.append_assoc]
      rfl

/-- No cut of a reader of words is refused. -/
theorem wordExtent_eq (t : Text) : t.wordExtent = pure (t.firstWord.utf8Size, t.firstWord) := by
  cases t with
  | nil => rfl
  | cons c t =>
    have htail := wordExtentFrom_append (List.cons_ne_nil c []) (Nesting.start.next c)
      (Nesting.start.closes c) t
    -- nothing is asked in front of the first character
    have hbegins : endsWordAt (c :: t) .start false 0 c = pure false := rfl
    have hsize : 0 + c.utf8Size = utf8Size [c] := by simp
    rw [wordExtent, wordExtentFrom, hbegins, pure_bind, hsize]
    exact congrArg (· >>= fun word => pure (word.1, c :: word.2)) htail

end Text

end SqlLayout
