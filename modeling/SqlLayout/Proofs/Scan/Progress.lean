import SqlLayout.Layout.Items
import SqlLayout.Proofs.Scan.Readers
import SqlLayout.Token.Stream

/-!
# A scan by byte offsets

The loop that reads the tokens of a text goes through it with one byte offset.  In each turn it
looks at what stands behind the offset, and adds the length in bytes of a blank character, of a hit,
or of a word.  A turn reads one segment, so the offset is always behind the segments that have been
read, and every turn takes one or more characters.  The items of a list are cut out with two such
offsets.

## Main definitions

* `Text.cutItems` : the items of the body of a list, cut out at byte offsets.
* `Cursor` : the state of the loop between two turns.
* `Cursor.step`, `Cursor.run` : one turn of the loop, and its turns up to a given number.
* `Cursor.behind` : the state behind a segment.

## Main results

* `Text.cutItems_eq` : no cut between items is refused.
* `Cursor.step_eq_behind` : a turn reads the segment behind the offset.
* `Cursor.run_eq_foldl` : as many turns as a text has characters read all of its segments.
* `scan_advances` : where a text is cut, and how far its scan gets.
-/

namespace SqlLayout

/-! ### Items -/

namespace Text

/-- The items of the body of a list from a byte offset `i` on, the first of them from the offset
`start` on.  Behind the offset `i` stand the given characters. -/
def cutItemsFrom (t : Text) (n : Nesting) (start i : Nat) : Text → Except BadCut (List Text)
  | [] => do
    let item ← t.sliceFrom start
    return [item]
  | c :: rest =>
    if n.isTop && c == ',' then do
      let item ← t.slice start i
      let items ← cutItemsFrom t (n.next c) (i + 1) (i + c.utf8Size) rest
      return item :: items
    else cutItemsFrom t (n.next c) start (i + c.utf8Size) rest

/-- The items of the body of a list, cut out at byte offsets and then trimmed. -/
def cutItems (t : Text) : Except BadCut (List Text) := do
  let items ← cutItemsFrom t .start 0 0 t
  return items.map trim

theorem cutItemsFrom_append (u part v : Text) (n : Nesting) :
    cutItemsFrom (u ++ part ++ v) n u.utf8Size (u ++ part).utf8Size v =
      pure ((part ++ (cutAtCommas n v).1) :: (cutAtCommas n v).2) := by
  induction v generalizing u part n with
  | nil =>
    rw [cutItemsFrom, List.append_nil, sliceFrom_append, pure_bind, cutAtCommas, List.append_nil]
  | cons c v ih =>
    have hsize : (u ++ part).utf8Size + c.utf8Size = (u ++ part ++ [c]).utf8Size :=
      (utf8Size_concat (u ++ part) c).symm
    have htext : u ++ part ++ c :: v = u ++ part ++ [c] ++ v := by simp
    rw [cutItemsFrom, cutAtCommas]
    split
    · rename_i hcut
      have hc : c = ',' := by simpa using (Bool.and_eq_true_iff.1 hcut).2
      -- a comma has one byte, so the next item begins behind it
      have hcomma : (u ++ part).utf8Size + 1 = (u ++ part ++ [c]).utf8Size := by
        rw [← hsize, hc]
        rfl
      have hbehind := ih (u ++ part ++ [c]) [] (n.next c)
      rw [List.append_nil, ← htext] at hbehind
      rw [slice_append, pure_bind, hsize, hcomma, hbehind, pure_bind, List.append_nil]
      rfl
    · have hbehind := ih u (part ++ [c]) (n.next c)
      rw [← List.append_assoc, ← htext] at hbehind
      rw [hsize, hbehind, List.append_assoc]
      rfl

/-- No cut between items is refused. -/
theorem cutItems_eq (t : Text) : t.cutItems = pure t.items := by
  have hcut : cutItemsFrom t .start 0 0 t =
      pure ((cutAtCommas .start t).1 :: (cutAtCommas .start t).2) :=
    cutItemsFrom_append [] [] t .start
  rw [cutItems, hcut, pure_bind]
  rfl

end Text

/-! ### The turns of the loop -/

/-- The state of the loop between two turns: the tokens that have been put out, the free text that
is not yet a token, and the byte offset of what is read next. -/
structure Cursor where
  out : List Token
  free : Text
  offset : Nat
  deriving DecidableEq

namespace Cursor

/-- The state in front of a text. -/
def start : Cursor := ⟨[], [], 0⟩

/-- The tokens that have been read, that of the free text included. -/
def tokens (s : Cursor) : List Token := s.out ++ s.free.freeTokens

/-- One turn of the loop over a text.  There is none at the end of the text. -/
def step (t : Text) (s : Cursor) : Except BadCut (Option Cursor) := do
  match ← t.sliceFrom s.offset with
  | [] => return none
  | c :: _ =>
    if isBlank c then return some { s with offset := s.offset + c.utf8Size }
    let rest ← t.sliceFrom s.offset
    match ← rest.found with
    | some found => return some ⟨s.tokens ++ [found.token], [], s.offset + found.size⟩
    | none =>
      let word ← rest.wordExtent
      return some ⟨s.out, s.free.appendWord word.2, s.offset + word.1⟩

/-- The state in which the loop over a text ends, if it does so after at most the given number of
turns. -/
def run (t : Text) : Nat → Cursor → Except BadCut (Option Cursor)
  | 0, s => do return if (← s.step t).isNone then some s else none
  | n + 1, s => do
    match ← s.step t with
    | none => return some s
    | some next => run t n next

/-- The state behind a segment. -/
def behind (s : Cursor) : Segment → Cursor
  | .gap c => { s with offset := s.offset + c.utf8Size }
  | .keyword hit => ⟨s.tokens ++ [hit.token], [], s.offset + hit.source.utf8Size⟩
  | .word letters => ⟨s.out, s.free.appendWord letters, s.offset + letters.utf8Size⟩

theorem offset_behind (s : Cursor) (segment : Segment) :
    (s.behind segment).offset = s.offset + segment.source.utf8Size := by
  cases segment <;> rfl

theorem offset_foldl_behind (s : Cursor) (segments : List Segment) :
    (segments.foldl behind s).offset =
      s.offset + Text.utf8Size (segments.flatMap Segment.source) := by
  induction segments generalizing s with
  | nil => rfl
  | cons segment segments ih =>
    rw [List.foldl_cons, ih, offset_behind, List.flatMap_cons, Text.utf8Size_append, Nat.add_assoc]

theorem tokens_foldl_behind (s : Cursor) (segments : List Segment) :
    (segments.foldl behind s).tokens = s.out ++ Segment.tokensAfter s.free segments := by
  induction segments generalizing s with
  | nil => rfl
  | cons segment segments ih =>
    rw [List.foldl_cons, ih]
    cases segment with
    | gap c => rfl
    | keyword hit => simp [behind, Segment.tokensAfter, tokens]
    | word letters => rfl

/-- A turn of the loop reads the segment behind the offset. -/
theorem step_eq_behind {u : Text} {s : Cursor} (hs : s.offset = u.utf8Size) (c : Char) (t : Text) :
    s.step (u ++ c :: t) = pure (some (s.behind (Segment.first c t))) := by
  rw [step, hs, Text.sliceFrom_append, pure_bind, Segment.first_eq]
  dsimp only
  split
  · rw [behind, hs]
  · rw [pure_bind, Text.found_eq, pure_bind]
    cases Text.hit? (c :: t) with
    | some hit => rw [behind, hs]; rfl
    | none => simp only [Option.map_none, Text.wordExtent_eq, pure_bind, behind, hs]

/-- The loop ends at the end of the text. -/
theorem step_eq_none {t : Text} {s : Cursor} (hs : s.offset = t.utf8Size) :
    s.step t = pure none := by
  have hslice := Text.sliceFrom_append t []
  rw [List.append_nil] at hslice
  rw [step, hs, hslice, pure_bind]

/-- As many turns as there are characters behind the offset read all of the segments there. -/
theorem run_eq_foldl {u t : Text} {s : Cursor} {n : Nat} (hs : s.offset = u.utf8Size)
    (hn : t.length ≤ n) : run (u ++ t) n s = pure (some (t.segments.foldl behind s)) := by
  induction n generalizing u t s with
  | zero =>
    obtain rfl : t = [] := List.length_eq_zero_iff.1 (Nat.le_zero.1 hn)
    rw [List.append_nil, run, step_eq_none hs]
    rfl
  | succ n ih =>
    cases t with
    | nil =>
      rw [List.append_nil, run, step_eq_none hs]
      rfl
    | cons c t =>
      -- a turn takes one or more characters, so the turns that are left are enough for the rest
      obtain ⟨rest, hrest⟩ := Segment.isPrefix_source_first c t
      have hpos : 0 < (Segment.first c t).source.length :=
        List.length_pos_iff.2 (Segment.source_first_ne_nil c t)
      have hlength := congrArg List.length hrest
      rw [List.length_append, List.length_cons] at hlength
      rw [List.length_cons] at hn
      have hoffset : (s.behind (Segment.first c t)).offset =
          (u ++ (Segment.first c t).source).utf8Size := by
        rw [offset_behind, hs, Text.utf8Size_append]
      have hbehind := ih hoffset (t := rest) (by omega)
      rw [List.append_assoc, hrest] at hbehind
      rw [run, step_eq_behind hs, pure_bind, Text.segments_cons, ← hrest, List.drop_left,
        List.foldl_cons, hrest]
      exact hbehind

end Cursor

/-- A text is cut at its boundaries only.  No reader of a text asks for another cut, be it one of
keywords, phrases, hits, words, items or tokens, and each of them reads what the library reads from
the characters of the text.  A hit, and a word where there is any text, is one or more characters,
and no more than the text has.  So the loop is at the end of the text after as many turns as the
text has characters, or after fewer. -/
theorem scan_advances :
    ((∀ (t : Text) (i : Nat), (∃ rest, t.sliceFrom i = .ok rest) ↔ t.IsBoundary i) ∧
      ∀ (t : Text) (i j : Nat),
        (∃ part, t.slice i j = .ok part) ↔ i ≤ j ∧ t.IsBoundary i ∧ t.IsBoundary j) ∧
    ∀ t : Text,
      (∀ k : Keyword, k.extent t = .ok ((k.split? t).map fun cut => cut.1.utf8Size)) ∧
      (∀ p : Phrase, p.extent t = .ok ((p.split? t).map fun cut => cut.1.utf8Size)) ∧
      (∀ f : Family, f.found t = .ok ((f.hit? t).map Hit.found) ∧
        ∀ found, f.found t = .ok (some found) → t.Advances found.size) ∧
      (t.wordExtent = .ok (t.firstWord.utf8Size, t.firstWord) ∧
        (t ≠ [] → t.Advances t.firstWord.utf8Size)) ∧
      t.cutItems = .ok t.items ∧
      ∃ s, Cursor.run t t.length .start = .ok (some s) ∧ s.offset = t.utf8Size ∧
        s.tokens = t.tokens := by
  refine ⟨⟨fun _ _ => Text.exists_sliceFrom_iff, fun _ _ _ => Text.exists_slice_iff⟩, fun t =>
    ⟨fun k => k.extent_eq t, fun p => p.extent_eq t, fun f => ⟨f.found_eq t, fun found h => ?_⟩,
      ⟨t.wordExtent_eq, fun hne => ?_⟩, t.cutItems_eq,
      ⟨t.segments.foldl Cursor.behind .start, ?_, ?_, ?_⟩⟩⟩
  · rw [f.found_eq] at h
    obtain ⟨hit, hhit, rfl⟩ := Option.map_eq_some_iff.1 (Except.ok.inj h)
    exact Text.advances_of_isPrefix (f.isPrefix_of_hit? hhit) (f.source_ne_nil_of_hit? hhit)
  · refine Text.advances_of_isPrefix t.isPrefix_firstWord fun hnil => hne ?_
    cases t with
    | nil => rfl
    | cons c t => cases hnil
  · exact Cursor.run_eq_foldl (u := []) rfl le_rfl
  · rw [Cursor.offset_foldl_behind, t.flatMap_source_segments]
    exact Nat.zero_add _
  · exact Cursor.tokens_foldl_behind .start t.segments

/-- A gap of two characters with four bytes stands in a phrase, and a character with three bytes
where a keyword with four letters would end. -/
theorem scan_advances_beside_wide_characters :
    let t : Text := "Group\u3000\tby fr\u65e5".toList
    Family.clause.found t = .ok (some ⟨11, .group, "GROUP BY".toList⟩) ∧ t.Advances 11 ∧
      t ≠ [] ∧ t.Advances 5 ∧ Keyword.from.extent "fr\u65e5".toList = .ok none ∧
      ∃ s, Cursor.run t t.length .start = .ok (some s) ∧ s.offset = 17 := by
  intro t
  have hfound : Family.clause.found t = .ok (some ⟨11, .group, "GROUP BY".toList⟩) := by
    decide +kernel
  obtain ⟨-, -, hfamily, ⟨-, hword⟩, -, s, hrun, hoffset, -⟩ := scan_advances.2 t
  have hkeyword := (scan_advances.2 "fr\u65e5".toList).1 .from
  have hsize : t.firstWord.utf8Size = 5 := by decide +kernel
  exact ⟨hfound, (hfamily .clause).2 _ hfound, by decide, hsize ▸ hword (by decide),
    hkeyword.trans (by decide +kernel), s, hrun, hoffset.trans (by decide)⟩

end SqlLayout
