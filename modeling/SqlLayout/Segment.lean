import SqlLayout.Family
import SqlLayout.Nesting

/-!
# Segments

A text is read from left to right as blank characters, keyword tokens, and words of free text.  At
a character that is not blank a family of phrases or symbols is tried first; where none has a hit
a word begins.  In which order the families are tried is a parameter of the reading, which is that
of `Family.table` wherever it is not given.

A word takes quoted regions and groups in parentheses whole.  At the top level it ends in front of
a blank character and in front of a comparison symbol, and behind a closing quote or parenthesis
also in front of a keyword token.  Its first character is never looked at in this way.

## Main definitions

* `Text.firstWord` : the word at the start of a text.
* `Segment` : a blank character, a keyword token, or a word.
* `Text.segments` : the segments of a text.
* `Text.wordTailIn`, `Segment.firstIn`, `Text.segmentsFromIn` : the readers behind these, with the
  families tried in a given order.

## Main results

* `Text.segments_cons` : the first segment of a text, and the segments of what follows it.
* `Text.flatMap_source_segments` : the segments of a text make up the text.
-/

namespace SqlLayout

/-! ### Words of free text -/

namespace Text

/-- Whether a text begins with a blank character. -/
def startsBlank : Text → Bool
  | [] => false
  | c :: _ => isBlank c

section Order

variable (order : List Family)

/-- Whether a word at the top level ends in front of a text; `closed` says that the character in
front of the text has closed a quoted region or a group.  The families are tried in a given
order. -/
def endsWordIn (closed : Bool) (rest : Text) : Bool :=
  rest.startsBlank || rest.startsSymbol || (closed && (rest.hitIn? order).isSome)

/-- The rest of a word that has begun, at the start of the text behind its first characters. -/
def wordTailIn : Nesting → Bool → Text → Text
  | _, _, [] => []
  | n, closed, c :: t =>
    if n.isTop && endsWordIn order closed (c :: t) then []
    else c :: wordTailIn (n.next c) (n.closes c) t

/-- The word at the start of a text. -/
def firstWordIn : Text → Text
  | [] => []
  | c :: t => c :: wordTailIn order (Nesting.start.next c) (Nesting.start.closes c) t

end Order

/-- Whether a word at the top level ends in front of a text. -/
def endsWord (closed : Bool) (rest : Text) : Bool := endsWordIn Family.table closed rest

/-- The rest of a word that has begun. -/
def wordTail (n : Nesting) (closed : Bool) (t : Text) : Text := wordTailIn Family.table n closed t

/-- The word at the start of a text. -/
def firstWord (t : Text) : Text := firstWordIn Family.table t

theorem endsWord_eq (closed : Bool) (rest : Text) :
    endsWord closed rest = (rest.startsBlank || rest.startsSymbol || (closed && rest.hasHit)) :=
  rfl

@[simp] theorem wordTail_nil (n : Nesting) (closed : Bool) : wordTail n closed [] = [] := rfl

theorem wordTail_cons (n : Nesting) (closed : Bool) (c : Char) (t : Text) :
    wordTail n closed (c :: t) =
      if n.isTop && endsWord closed (c :: t) then []
      else c :: wordTail (n.next c) (n.closes c) t :=
  rfl

theorem firstWord_cons (c : Char) (t : Text) :
    firstWord (c :: t) = c :: wordTail (Nesting.start.next c) (Nesting.start.closes c) t :=
  rfl

theorem isPrefix_wordTail (n : Nesting) (closed : Bool) (t : Text) : wordTail n closed t <+: t := by
  induction t generalizing n closed with
  | nil => exact List.prefix_refl _
  | cons c t ih =>
    rw [wordTail_cons]
    split
    · exact List.nil_prefix
    · exact (List.prefix_cons_inj c).2 (ih _ _)

/-- A word stands at the start of the text that it is taken from. -/
theorem isPrefix_firstWord (t : Text) : firstWord t <+: t := by
  cases t with
  | nil => exact List.prefix_refl _
  | cons c t => exact (List.prefix_cons_inj c).2 (isPrefix_wordTail _ _ t)

end Text

/-! ### Segments -/

/-- A part of a text: a blank character between tokens, a keyword token, or a word of free
text. -/
inductive Segment where
  | gap (c : Char)
  | keyword (hit : Hit)
  | word (letters : Text)
  deriving DecidableEq

namespace Segment

/-- The part of the text that a segment was read from. -/
def source : Segment → Text
  | gap c => [c]
  | keyword hit => hit.source
  | word letters => letters

/-- The segment at the start of a text that is not empty, with the families tried in a given
order. -/
def firstIn (order : List Family) (c : Char) (t : Text) : Segment :=
  if isBlank c then gap c
  else
    match Text.hitIn? order (c :: t) with
    | some hit => keyword hit
    | none => word (Text.firstWordIn order (c :: t))

/-- The segment at the start of a text that is not empty. -/
def first (c : Char) (t : Text) : Segment := firstIn Family.table c t

theorem first_eq (c : Char) (t : Text) :
    first c t =
      if isBlank c then gap c
      else
        match Text.hit? (c :: t) with
        | some hit => keyword hit
        | none => word (Text.firstWord (c :: t)) :=
  rfl

theorem isPrefix_source_first (c : Char) (t : Text) : (first c t).source <+: c :: t := by
  rw [first_eq]
  split
  · exact (List.prefix_cons_inj c).2 List.nil_prefix
  · split
    · exact Text.isPrefix_of_hit? ‹_›
    · exact Text.isPrefix_firstWord (c :: t)

theorem source_first_ne_nil (c : Char) (t : Text) : (first c t).source ≠ [] := by
  rw [first_eq]
  split
  · exact List.cons_ne_nil _ _
  · split
    · exact Text.source_ne_nil_of_hit? ‹_›
    · exact List.cons_ne_nil _ _

end Segment

namespace Text

/-- The segments of a text of which some characters belong to a segment in front of it, with the
families tried in a given order. -/
def segmentsFromIn (order : List Family) : Nat → Text → List Segment
  | _, [] => []
  | taken + 1, _ :: t => segmentsFromIn order taken t
  | 0, c :: t =>
    Segment.firstIn order c t ::
      segmentsFromIn order ((Segment.firstIn order c t).source.length - 1) t

/-- The segments of a text of which some characters belong to a segment in front of it. -/
def segmentsFrom (taken : Nat) (t : Text) : List Segment := segmentsFromIn Family.table taken t

/-- The segments of a text. -/
def segments (t : Text) : List Segment := segmentsFrom 0 t

theorem segmentsFrom_zero_cons (c : Char) (t : Text) :
    segmentsFrom 0 (c :: t) =
      Segment.first c t :: segmentsFrom ((Segment.first c t).source.length - 1) t :=
  rfl

theorem segmentsFrom_eq_segments_drop (taken : Nat) (t : Text) :
    segmentsFrom taken t = segments (t.drop taken) := by
  induction t generalizing taken with
  | nil => cases taken <;> rfl
  | cons c t ih =>
    cases taken with
    | zero => rfl
    | succ taken => exact ih taken

@[simp] theorem segments_nil : segments [] = [] := rfl

/-- The first segment of a text, and the segments of what follows it. -/
theorem segments_cons (c : Char) (t : Text) :
    segments (c :: t) = Segment.first c t ::
      segments ((c :: t).drop (Segment.first c t).source.length) := by
  obtain ⟨k, hk⟩ : ∃ k, (Segment.first c t).source.length = k + 1 :=
    Nat.exists_eq_succ_of_ne_zero fun h =>
      Segment.source_first_ne_nil c t (List.length_eq_zero_iff.1 h)
  rw [segments, segmentsFrom_zero_cons, segmentsFrom_eq_segments_drop, hk, Nat.add_sub_cancel,
    List.drop_succ_cons]

/-- The segments of a text make up the text. -/
theorem flatMap_source_segments (t : Text) : t.segments.flatMap Segment.source = t := by
  induction hn : t.length using Nat.strongRecOn generalizing t with
  | ind n ih =>
    cases t with
    | nil => rfl
    | cons c t =>
      obtain ⟨rest, hrest⟩ := Segment.isPrefix_source_first c t
      have hpos : 0 < (Segment.first c t).source.length :=
        List.length_pos_iff.2 (Segment.source_first_ne_nil c t)
      have hdrop : (c :: t).drop (Segment.first c t).source.length = rest := by
        rw [← hrest, List.drop_left]
      have hshort : rest.length < n := by
        rw [← hn, ← hrest, List.length_append]
        omega
      rw [segments_cons, List.flatMap_cons, hdrop, ih _ hshort rest rfl, hrest]

end Text

end SqlLayout
