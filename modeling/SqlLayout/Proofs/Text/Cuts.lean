import SqlLayout.Text.Basic

/-!
# Texts cut where a rule says so

The same character may divide a text in one place and belong to a part of it in another, depending
on all that stands in front of it.  So a rule about cuts is asked about each character of a text
together with the text in front of the character.  The text is then cut at the characters that the
rule picks, and these belong to no part.

## Main definitions

* `Text.marked` : the characters of a text, each with what a rule says about it.
* `Text.cutWhere`, `Text.countWhere` : the parts of a text, and the number of places where it is
  cut.

## Main results

* `Text.cutFrom_append_cons` : a cut takes the parts of a text apart from what stands behind it.
* `Text.length_cutFrom`, `Text.intercalate_cutFrom` : there is one part more than there are cuts,
  and nothing but the characters between the parts is lost.
* `Text.cutFrom_intercalate` : texts that are joined are the parts of what they make up.
-/

namespace SqlLayout

namespace Text

/-- The characters of a text, each with what a rule says about it.  The rule is asked about the
character and all that stands in front of it, where `before` stands in front of the text. -/
def marked (rule : Text → Char → Bool) (before : Text) : Text → List (Char × Bool)
  | [] => []
  | c :: t => (c, rule before c) :: marked rule (before ++ [c]) t

/-- The parts of a text between the characters that a rule picks, where `before` stands in front of
the text. -/
def cutFrom (rule : Text → Char → Bool) (before t : Text) : List Text :=
  ((marked rule before t).splitOnP Prod.snd).map (List.map Prod.fst)

/-- The number of characters of a text that a rule picks, where `before` stands in front of the
text. -/
def countFrom (rule : Text → Char → Bool) (before t : Text) : Nat :=
  (marked rule before t).countP Prod.snd

/-- The parts of a text between the characters that a rule picks. -/
def cutWhere (rule : Text → Char → Bool) (t : Text) : List Text := cutFrom rule [] t

/-- The number of characters of a text that a rule picks. -/
def countWhere (rule : Text → Char → Bool) (t : Text) : Nat := countFrom rule [] t

variable {rule : Text → Char → Bool} {before : Text}

theorem marked_append (rule : Text → Char → Bool) (before t u : Text) :
    marked rule before (t ++ u) = marked rule before t ++ marked rule (before ++ t) u := by
  induction t generalizing before with
  | nil => simp [marked]
  | cons c t ih => simp [marked, ih]

@[simp] theorem cutFrom_nil (rule : Text → Char → Bool) (before : Text) :
    cutFrom rule before [] = [[]] := rfl

theorem cutFrom_ne_nil (rule : Text → Char → Bool) (before t : Text) :
    cutFrom rule before t ≠ [] := by
  simp [cutFrom]

/-- The first character of a text is cut off, or it belongs to the first part. -/
theorem cutFrom_cons (rule : Text → Char → Bool) (before : Text) (c : Char) (t : Text) :
    cutFrom rule before (c :: t) =
      if rule before c then [] :: cutFrom rule (before ++ [c]) t
      else (cutFrom rule (before ++ [c]) t).modifyHead (c :: ·) := by
  rw [cutFrom, marked, List.splitOnP_cons_eq_if_modifyHead]
  split
  · rfl
  · obtain ⟨first, others, h⟩ := List.exists_cons_of_ne_nil
      (List.splitOnP_ne_nil Prod.snd (marked rule (before ++ [c]) t))
    simp [cutFrom, h]

/-- A cut takes the parts of a text apart from what stands behind it. -/
theorem cutFrom_append_cons {t : Text} {c : Char} (h : rule (before ++ t) c = true) (u : Text) :
    cutFrom rule before (t ++ c :: u) =
      cutFrom rule before t ++ cutFrom rule (before ++ t ++ [c]) u := by
  have hpicked : Prod.snd (c, rule (before ++ t) c) = true := h
  rw [cutFrom, marked_append, marked, List.splitOnP_append_cons _ _ hpicked, List.map_append]
  rfl

/-- A text of which no character is picked is one part. -/
theorem cutFrom_eq_singleton {t : Text}
    (h : ∀ u c v, t = u ++ c :: v → rule (before ++ u) c = false) :
    cutFrom rule before t = [t] := by
  induction t generalizing before with
  | nil => rfl
  | cons c t ih =>
    have hc : rule before c = false := by simpa using h [] c t rfl
    have ht : cutFrom rule (before ++ [c]) t = [t] := by
      refine ih fun u d v heq => ?_
      simpa using h (c :: u) d v (congrArg (c :: ·) heq)
    simp [cutFrom_cons, hc, ht]

/-- Rules that say the same about a text cut it alike. -/
theorem cutFrom_congr {before' : Text} {t : Text}
    (h : ∀ (u : Text) (c : Char), rule (before ++ u) c = rule (before' ++ u) c) :
    cutFrom rule before t = cutFrom rule before' t := by
  induction t generalizing before before' with
  | nil => rfl
  | cons c t ih =>
    have hc : rule before c = rule before' c := by simpa using h [] c
    have ht : cutFrom rule (before ++ [c]) t = cutFrom rule (before' ++ [c]) t :=
      ih fun u d => by simpa using h (c :: u) d
    rw [cutFrom_cons, cutFrom_cons, hc, ht]

/-- There is one part more than there are cuts. -/
theorem length_cutFrom (rule : Text → Char → Bool) (before t : Text) :
    (cutFrom rule before t).length = countFrom rule before t + 1 := by
  induction t generalizing before with
  | nil => rfl
  | cons c t ih =>
    have hcount : countFrom rule before (c :: t) =
        countFrom rule (before ++ [c]) t + if rule before c then 1 else 0 :=
      List.countP_cons
    rw [cutFrom_cons, hcount]
    split
    · rw [List.length_cons, ih]
    · rw [List.length_modifyHead, ih]

/-- Parts with the character between them that the rule picks make up the text. -/
theorem intercalate_cutFrom {d : Char} (h : ∀ u c, rule u c = true → c = d) (before t : Text) :
    [d].intercalate (cutFrom rule before t) = t := by
  induction t generalizing before with
  | nil => rfl
  | cons c t ih =>
    have ih := ih (before ++ [c])
    obtain ⟨first, others, hparts⟩ :=
      List.exists_cons_of_ne_nil (cutFrom_ne_nil rule (before ++ [c]) t)
    rw [cutFrom_cons, hparts]
    rw [hparts] at ih
    split
    · rename_i hc
      rw [List.intercalate_cons_cons, ih, h _ _ hc]
      rfl
    · cases others with
      | nil => simpa [List.intercalate] using ih
      | cons second others =>
        rw [List.intercalate_cons_cons] at ih
        rw [List.modifyHead_cons, List.intercalate_cons_cons, List.cons_append, List.cons_append,
          ih]

/-- Texts that are joined are the parts of what they make up: none of them is cut, and behind each
but the last stands a cut.  `fresh` is what the rule has to know about all that stands in front of a
part. -/
theorem cutFrom_intercalate (fresh : Text → Prop) {d : Char} {parts : List Text}
    (hne : parts ≠ [])
    (hwhole : ∀ u, fresh u → ∀ part ∈ parts, cutFrom rule u part = [part])
    (hcut : ∀ u, fresh u → ∀ part ∈ parts.dropLast,
      rule (u ++ part) d = true ∧ fresh (u ++ part ++ [d]))
    (hbefore : fresh before) : cutFrom rule before ([d].intercalate parts) = parts := by
  induction parts generalizing before with
  | nil => exact absurd rfl hne
  | cons part parts ih =>
    cases parts with
    | nil =>
      rw [List.intercalate_singleton]
      exact hwhole before hbefore part List.mem_cons_self
    | cons next parts =>
      have hdrop := List.dropLast_cons_of_ne_nil (x := part) (List.cons_ne_nil next parts)
      rw [hdrop] at hcut
      obtain ⟨hrule, hfresh⟩ := hcut before hbefore part List.mem_cons_self
      have hparts : cutFrom rule (before ++ part ++ [d]) ([d].intercalate (next :: parts)) =
          next :: parts :=
        ih (List.cons_ne_nil next parts)
          (fun u hu p hp => hwhole u hu p (List.mem_cons_of_mem part hp))
          (fun u hu p hp => hcut u hu p (List.mem_cons_of_mem part hp)) hfresh
      rw [List.intercalate_cons_cons, List.append_assoc, List.singleton_append,
        cutFrom_append_cons hrule, hwhole before hbefore part List.mem_cons_self, hparts]
      rfl

end Text

end SqlLayout
