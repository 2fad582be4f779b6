import SqlLayout.Text.Blank

/-!
# Byte offsets

A text is stored as the bytes of its UTF-8 encoding, and a reader that adds up lengths in bytes cuts
it at the offsets that come out.  Such a cut is refused where the offset lies behind the end of the
text or inside of a character.  Here a refused cut is an error that names the text and the offset,
so that a reader which returns a result has asked for no such cut.

## Main definitions

* `Text.splitBytes?` : a text cut behind a number of bytes, if a character ends there.
* `BadCut`, `Text.sliceFrom`, `Text.slice` : the parts of a text between byte offsets, and the error
  of a cut that is refused.
* `Text.IsBoundary` : the offsets of a text at which a character of its encoding ends or begins.
* `Text.Advances` : a number of bytes that is one or more characters of a text.
* `Text.gapSize` : the number of bytes of the blank characters at the start of a text.

## Main results

* `Text.splitBytes?_eq_some_iff` : the two parts of a cut behind a number of bytes.
* `Text.exists_sliceFrom_iff`, `Text.exists_slice_iff` : the cuts that are not refused.
-/

namespace SqlLayout

namespace Text

/-! ### Cuts behind a number of bytes -/

@[simp] theorem utf8Size_nil : utf8Size [] = 0 := rfl

@[simp] theorem utf8Size_cons (c : Char) (t : Text) :
    utf8Size (c :: t) = c.utf8Size + utf8Size t := rfl

theorem utf8Size_concat (t : Text) (c : Char) :
    utf8Size (t ++ [c]) = t.utf8Size + c.utf8Size := by
  rw [utf8Size_append, utf8Size_cons, utf8Size_nil, Nat.add_zero]

theorem utf8Size_eq_zero_iff {t : Text} : t.utf8Size = 0 ↔ t = [] := by
  cases t with
  | nil => simp
  | cons c t =>
    have hpos := c.utf8Size_pos
    simp only [utf8Size_cons, List.cons_ne_nil, iff_false]
    omega

/-- A text cut behind a number of bytes, if a character ends there. -/
def splitBytes? : Nat → Text → Option (Text × Text)
  | 0, t => some ([], t)
  | _ + 1, [] => none
  | n + 1, c :: t =>
    if c.utf8Size ≤ n + 1 then
      (splitBytes? (n + 1 - c.utf8Size) t).map fun cut => (c :: cut.1, cut.2)
    else none

/-- A text is cut behind its first part. -/
theorem splitBytes?_append (u v : Text) : splitBytes? u.utf8Size (u ++ v) = some (u, v) := by
  induction u with
  | nil => cases v <;> rfl
  | cons c u ih =>
    obtain ⟨n, hn⟩ : ∃ n, utf8Size (c :: u) = n + 1 :=
      Nat.exists_eq_succ_of_ne_zero fun h => List.cons_ne_nil c u (utf8Size_eq_zero_iff.1 h)
    have hsize : n + 1 - c.utf8Size = utf8Size u := by
      rw [← hn, utf8Size_cons, Nat.add_sub_cancel_left]
    have hle : c.utf8Size ≤ n + 1 := hn ▸ Nat.le_add_right _ _
    rw [hn, List.cons_append, splitBytes?, if_pos hle, hsize, ih]
    rfl

/-- The two parts of a cut make up the text, and the first one has the number of bytes. -/
theorem splitBytes?_eq_some_iff {n : Nat} {t u v : Text} :
    splitBytes? n t = some (u, v) ↔ t = u ++ v ∧ u.utf8Size = n := by
  constructor
  · intro h
    fun_induction splitBytes? n t generalizing u with
    | case1 t =>
      obtain ⟨rfl, rfl⟩ := Prod.mk.inj (Option.some.inj h)
      exact ⟨rfl, rfl⟩
    | case2 n => cases h
    | case3 n c t hle ih =>
      obtain ⟨⟨front, rest⟩, hcut, heq⟩ := Option.map_eq_some_iff.1 h
      obtain ⟨rfl, rfl⟩ := Prod.mk.inj heq
      obtain ⟨rfl, hsize⟩ := ih hcut
      refine ⟨rfl, ?_⟩
      rw [utf8Size_cons, hsize, Nat.add_sub_cancel' hle]
    | case4 n c t hle => cases h
  · rintro ⟨rfl, rfl⟩
    exact splitBytes?_append u v

/-! ### Boundaries -/

/-- A byte offset of a text that lies within it, and inside of no character of its encoding. -/
def IsBoundary (t : Text) (i : Nat) : Prop := String.Pos.Raw.IsValid (String.ofList t) ⟨i⟩

theorem utf8ByteSize_ofList (t : Text) : (String.ofList t).utf8ByteSize = t.utf8Size := by
  induction t with
  | nil => rfl
  | cons c t ih =>
    have hcons : String.ofList (c :: t) = String.singleton c ++ String.ofList t := by
      rw [String.singleton_eq_ofList, ← String.ofList_append]
      rfl
    rw [hcons, String.utf8ByteSize_append, String.utf8ByteSize_singleton, ih, utf8Size_cons]

/-- The boundaries of a text are the offsets behind its first parts. -/
theorem isBoundary_iff {t : Text} {i : Nat} :
    t.IsBoundary i ↔ ∃ u v, t = u ++ v ∧ u.utf8Size = i := by
  rw [IsBoundary, String.Pos.Raw.isValid_iff_exists_append]
  constructor
  · rintro ⟨front, rest, hstring, hoffset⟩
    refine ⟨front.toList, rest.toList, ?_, ?_⟩
    · rw [← String.toList_append, ← hstring, String.toList_ofList]
    · rw [← utf8ByteSize_ofList, String.ofList_toList]
      exact (congrArg String.Pos.Raw.byteIdx hoffset).symm
  · rintro ⟨u, v, rfl, rfl⟩
    refine ⟨String.ofList u, String.ofList v, String.ofList_append, ?_⟩
    rw [← utf8ByteSize_ofList]
    rfl

/-! ### Slices -/

end Text

/-- A cut that is refused: the text, and the offset that is no boundary of it. -/
structure BadCut where
  text : Text
  offset : Nat
  deriving DecidableEq

namespace Text

/-- The parts of a text on the two sides of a byte offset. -/
def cutAt (t : Text) (i : Nat) : Except BadCut (Text × Text) :=
  match t.splitBytes? i with
  | some cut => pure cut
  | none => throw ⟨t, i⟩

/-- The part of a text behind a byte offset. -/
def sliceFrom (t : Text) (i : Nat) : Except BadCut Text := do
  let cut ← t.cutAt i
  return cut.2

/-- The part of a text between two byte offsets. -/
def slice (t : Text) (i j : Nat) : Except BadCut Text := do
  let cut ← t.cutAt j
  cut.1.sliceFrom i

theorem cutAt_eq_pure_iff {t u v : Text} {i : Nat} :
    t.cutAt i = pure (u, v) ↔ t = u ++ v ∧ u.utf8Size = i := by
  rw [← splitBytes?_eq_some_iff, cutAt]
  constructor
  · intro h
    split at h
    · rename_i cut hcut
      rw [hcut, Except.ok.inj h]
    · cases h
  · intro h
    rw [h]

theorem sliceFrom_append (u v : Text) : (u ++ v).sliceFrom u.utf8Size = pure v := by
  rw [sliceFrom, cutAt_eq_pure_iff.2 ⟨rfl, rfl⟩, pure_bind]

theorem slice_append (u v w : Text) :
    (u ++ v ++ w).slice u.utf8Size (u ++ v).utf8Size = pure v := by
  rw [slice, cutAt_eq_pure_iff.2 ⟨rfl, rfl⟩, pure_bind]
  exact sliceFrom_append u v

theorem exists_of_sliceFrom {t rest : Text} {i : Nat} (h : t.sliceFrom i = pure rest) :
    ∃ u, t = u ++ rest ∧ u.utf8Size = i := by
  cases hcut : t.cutAt i with
  | error e =>
    rw [sliceFrom, hcut] at h
    cases h
  | ok cut =>
    rw [sliceFrom, hcut] at h
    obtain rfl : cut.2 = rest := Except.ok.inj h
    exact ⟨cut.1, cutAt_eq_pure_iff.1 hcut⟩

/-- The part of a text behind an offset can be had if the offset is a boundary, and only then. -/
theorem exists_sliceFrom_iff {t : Text} {i : Nat} :
    (∃ rest, t.sliceFrom i = pure rest) ↔ t.IsBoundary i := by
  rw [isBoundary_iff]
  constructor
  · rintro ⟨rest, h⟩
    obtain ⟨u, hu⟩ := exists_of_sliceFrom h
    exact ⟨u, rest, hu⟩
  · rintro ⟨u, v, rfl, rfl⟩
    exact ⟨v, sliceFrom_append u v⟩

/-- The part of a text between two offsets can be had if they are boundaries in this order, and only
then. -/
theorem exists_slice_iff {t : Text} {i j : Nat} :
    (∃ part, t.slice i j = pure part) ↔ i ≤ j ∧ t.IsBoundary i ∧ t.IsBoundary j := by
  simp only [isBoundary_iff]
  constructor
  · rintro ⟨part, h⟩
    cases hcut : t.cutAt j with
    | error e =>
      rw [slice, hcut] at h
      cases h
    | ok cut =>
      rw [slice, hcut] at h
      obtain ⟨hsplit, hj⟩ := cutAt_eq_pure_iff.1 hcut
      obtain ⟨u, hfront, hi⟩ := exists_of_sliceFrom h
      rw [hfront, utf8Size_append] at hj
      refine ⟨by omega, ⟨u, part ++ cut.2, ?_, hi⟩, ⟨u ++ part, cut.2, ?_, ?_⟩⟩
      · rw [hsplit, hfront, List.append_assoc]
      · rw [hsplit, hfront]
      · rw [utf8Size_append, hj]
  · rintro ⟨hle, ⟨u, v, rfl, rfl⟩, ⟨u', v', heq, rfl⟩⟩
    obtain ⟨part, rfl⟩ : u <+: u' := by
      rcases List.prefix_or_prefix_of_prefix ⟨v, rfl⟩ ⟨v', heq.symm⟩ with h | ⟨b, rfl⟩
      · exact h
      · -- nothing is left between the two offsets
        rw [utf8Size_append] at hle
        have hb : b = [] := utf8Size_eq_zero_iff.1 (by omega)
        exact ⟨[], by rw [hb, List.append_nil, List.append_nil]⟩
    exact ⟨part, heq ▸ slice_append u part v'⟩

/-! ### Gaps -/

/-- The number of bytes of the blank characters at the start of a text. -/
def gapSize (t : Text) : Nat := t.utf8Size - t.trimStart.utf8Size

theorem gapSize_eq (t : Text) : t.gapSize = utf8Size (t.takeWhile isBlank) := by
  have hsize := congrArg utf8Size t.takeWhile_append_trimStart
  rw [utf8Size_append] at hsize
  rw [gapSize]
  omega

/-- Behind the first part of a text and the blank characters that follow it. -/
theorem sliceFrom_append_gapSize (u v : Text) :
    (u ++ v).sliceFrom (u.utf8Size + v.gapSize) = pure v.trimStart := by
  have htext : u ++ v = u ++ v.takeWhile isBlank ++ v.trimStart := by
    rw [List.append_assoc, takeWhile_append_trimStart]
  rw [gapSize_eq, ← utf8Size_append, htext, sliceFrom_append]

/-! ### Progress -/

/-- A number of bytes that is one or more characters at the start of a text. -/
def Advances (t : Text) (n : Nat) : Prop := ∃ u v, t = u ++ v ∧ u ≠ [] ∧ u.utf8Size = n

theorem advances_of_isPrefix {t u : Text} (h : u <+: t) (hne : u ≠ []) :
    t.Advances u.utf8Size := by
  obtain ⟨v, rfl⟩ := h
  exact ⟨u, v, rfl, hne, rfl⟩

end Text

end SqlLayout
