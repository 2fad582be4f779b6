import SqlLayout.Proofs.Text.Narrowing
import SqlLayout.Token.Stream

/-!
# Where words end

A word of free text is read with a state of quotes and parentheses that is carried along, and with a
note whether the last character has closed something.  Here its end is told without them, from the
two parts that it cuts a text into.  The word is the shortest part at the front of a text behind
which a word may end, and the whole text if there is none.

## Main definitions

* `Text.EndsClosed` : a text that ends in a closing quote or a closing parenthesis.
* `Text.WordEnds` : a word may end between two parts of a text.

## Main results

* `Text.stops_iff_wordEnds` : a word that is read stops where it may end.
* `Text.exists_wordTail`, `Text.exists_rest_of_firstWord` : a word is read to the first place where
  it may end.
* `Text.firstWord_shortest` : the word at the start of a text, and how it is written.
-/

namespace SqlLayout

namespace Text

/-! ### Ends of words -/

/-- The last character closes a quoted region, or it is a closing parenthesis. -/
def EndsClosed (t : Text) : Prop :=
  ∃ front c, t = front ++ [c] ∧ ((Quoting.outside.after front).isOpen = true ∨ c = ')')

/-- A word at the start of a text may end between its two parts.  Quotes and parentheses are closed
there.  The second part is empty, or it begins with a blank character or a comparison symbol, or it
begins with a keyword token behind a closing quote or parenthesis. -/
def WordEnds (word rest : Text) : Prop :=
  Nesting.start.after word = .start ∧
    (rest = [] ∨ rest.startsBlank = true ∨ rest.startsSymbol = true ∨
      word.EndsClosed ∧ rest.hasHit = true)

/-- A character behind which the top level is reached closes something if it closes a quoted region
or is a closing parenthesis. -/
theorem closes_iff_endsClosed {front : Text} {c : Char}
    (h : (Nesting.start.after (front ++ [c])).isTop = true) :
    (Nesting.start.after front).closes c = true ↔ EndsClosed (front ++ [c]) := by
  have hquoting : (Nesting.start.after front).quoting = Quoting.outside.after front :=
    Nesting.quoting_after .start front
  have hnext : ((Nesting.start.after front).next c).isTop = true := by
    rwa [Nesting.after_append] at h
  -- a quote that opens a region does not leave the reader at the top level
  have hcovers : (Quoting.outside.after front).covers c =
      (Quoting.outside.after front).isOpen := by
    have hclosed : ((Quoting.outside.after front).next c).isOpen = false := by
      rw [← hquoting]
      exact congrArg (fun n : Nesting => n.quoting.isOpen) (Nesting.isTop_iff.1 hnext)
    cases hstate : Quoting.outside.after front with
    | outside =>
      rw [hstate] at hclosed
      cases hquote : isQuote c with
      | false => exact hquote
      | true =>
        obtain ⟨q, rfl⟩ := isQuote_eq_true_iff.1 hquote
        rw [Quoting.next_outside_quote] at hclosed
        cases hclosed
    | inside q => rfl
    | escaped q => rfl
  rw [Nesting.closes, hnext, Bool.true_and, hquoting, hcovers, Bool.or_eq_true, beq_iff_eq]
  constructor
  · intro hends
    exact ⟨front, c, rfl, hends⟩
  · rintro ⟨front', c', heq, hends⟩
    obtain ⟨rfl, hc⟩ := List.append_inj' heq rfl
    obtain ⟨rfl, -⟩ := List.cons.inj hc
    exact hends

/-- A word stops in front of a character where it may end. -/
theorem stops_iff_wordEnds (front : Text) (c d : Char) (t : Text) :
    (((Nesting.start.after front).next c).isTop &&
        endsWord ((Nesting.start.after front).closes c) (d :: t)) = true ↔
      WordEnds (front ++ [c]) (d :: t) := by
  have hstate : (Nesting.start.after front).next c = Nesting.start.after (front ++ [c]) := by
    rw [Nesting.after_append]
    rfl
  rw [Bool.and_eq_true, hstate, WordEnds, ← Nesting.isTop_iff]
  refine and_congr_right fun htop => ?_
  rw [← closes_iff_endsClosed htop]
  simp [endsWord_eq, or_assoc]

/-- A word that has begun is read to the first place where it may end. -/
theorem exists_wordTail (front : Text) (c : Char) (t : Text) :
    ∃ tail rest, wordTail ((Nesting.start.after front).next c)
        ((Nesting.start.after front).closes c) t = tail ∧ t = tail ++ rest ∧
      (WordEnds (front ++ c :: tail) rest ∨ rest = []) ∧
      ∀ u v, t = u ++ v → WordEnds (front ++ c :: u) v → tail <+: u := by
  induction t generalizing front c with
  | nil => exact ⟨[], [], rfl, rfl, Or.inr rfl, fun u v _ _ => List.nil_prefix⟩
  | cons d t ih =>
    have hstop := stops_iff_wordEnds front c d t
    rw [wordTail_cons]
    split
    · rename_i h
      exact ⟨[], d :: t, rfl, rfl, Or.inl (hstop.1 h), fun u v _ _ => List.nil_prefix⟩
    · rename_i h
      obtain ⟨tail, rest, htail, rfl, hend, hfirst⟩ := ih (front ++ [c]) d
      rw [Nesting.after_append] at htail
      refine ⟨d :: tail, rest, congrArg (d :: ·) htail, rfl, ?_, fun u v heq hends => ?_⟩
      · rwa [List.append_assoc] at hend
      · cases u with
        | nil =>
          obtain rfl : d :: (tail ++ rest) = v := heq
          exact absurd (hstop.2 hends) h
        | cons b u =>
          obtain ⟨rfl, hsplit⟩ := List.cons.inj heq
          have hends : WordEnds (front ++ [c] ++ d :: u) v := by rwa [List.append_assoc]
          exact (List.prefix_cons_inj d).2 (hfirst u v hsplit hends)

/-! ### The first word -/

/-- The word at the start of a text ends where a word may end or where the text ends, and in front
of every other place where one may end. -/
theorem exists_rest_of_firstWord (c : Char) (t : Text) :
    ∃ rest, c :: t = firstWord (c :: t) ++ rest ∧
      (WordEnds (firstWord (c :: t)) rest ∨ rest = []) ∧
      ∀ p r, c :: t = p ++ r → p ≠ [] → WordEnds p r → firstWord (c :: t) <+: p := by
  obtain ⟨tail, rest, htail, hsplit, hend, hfirst⟩ := exists_wordTail [] c t
  have hword : firstWord (c :: t) = c :: tail := congrArg (c :: ·) htail
  rw [hword]
  refine ⟨rest, congrArg (c :: ·) hsplit, hend, fun p r heq hp hends => ?_⟩
  obtain ⟨b, u, rfl⟩ := List.exists_cons_of_ne_nil hp
  obtain ⟨rfl, hu⟩ := List.cons.inj heq
  exact (List.prefix_cons_inj c).2 (hfirst u r hu hends)

/-- A word is put behind free text with a space between them, and its gaps are narrowed. -/
theorem appendWord_eq_narrowed (free word : Text) :
    free.appendWord word = free ++ (if free = [] then [] else [' ']) ++ word.narrowed := by
  rw [appendWord, squeeze_eq_narrowed]
  cases free with
  | nil => rfl
  | cons b free => simp

/-- The word at the start of a text is the shortest part at its front behind which a word may end,
and all of the text if there is none.  It is put behind free text with a space between them, unless
it is the first word, and each of its gaps is narrowed. -/
theorem firstWord_shortest (free : Text) (c : Char) (t : Text) :
    let word := firstWord (c :: t)
    (∃ rest, c :: t = word ++ rest ∧ word ≠ [] ∧
      (WordEnds word rest ∨
        rest = [] ∧ ∀ p r, c :: t = p ++ r → p ≠ [] → ¬ WordEnds p r)) ∧
      (∀ p r, c :: t = p ++ r → p ≠ [] → WordEnds p r → word <+: p) ∧
      free.appendWord word = free ++ (if free = [] then [] else [' ']) ++ word.narrowed := by
  intro word
  obtain ⟨rest, hsplit, hend, hshortest⟩ := exists_rest_of_firstWord c t
  refine ⟨⟨rest, hsplit, List.cons_ne_nil _ _, ?_⟩, hshortest, appendWord_eq_narrowed free word⟩
  by_cases hends : WordEnds word rest
  · exact Or.inl hends
  · have hnil : rest = [] := hend.resolve_left hends
    refine Or.inr ⟨hnil, fun p r heq hp h => hends ?_⟩
    -- the word is the whole text, so no other part has it at its front
    obtain ⟨v, rfl⟩ := hshortest p r heq hp h
    have hwhole : word ++ (v ++ r) = word ++ rest := by
      rw [← List.append_assoc]
      exact heq.symm.trans hsplit
    have hv : v ++ r = [] := (List.append_cancel_left hwhole).trans hnil
    obtain ⟨rfl, rfl⟩ := List.append_eq_nil_iff.1 hv
    rwa [List.append_nil, ← hnil] at h

/-- A group with a quoted parenthesis, in front of a keyword token. -/
theorem firstWord_shortest_behind_group :
    let p : Text := "count( ')' ,\t b )".toList
    let r : Text := "from t".toList
    p ≠ [] ∧ WordEnds p r ∧ firstWord (p ++ r) <+: p ∧
      appendWord ['x'] (firstWord (p ++ r)) = "x count( ')' , b )".toList := by
  intro p r
  have hends : WordEnds p r :=
    ⟨by decide, Or.inr (Or.inr (Or.inr ⟨⟨p.dropLast, ')', by decide, Or.inr rfl⟩, by decide⟩))⟩
  obtain ⟨-, hshortest, hwritten⟩ := firstWord_shortest ['x'] 'c' (p.tail ++ r)
  exact ⟨by decide, hends, hshortest p r rfl (by decide) hends, hwritten.trans (by decide +kernel)⟩

end Text

end SqlLayout
