import SqlLayout.Proofs.Text.Lexemes

/-!
# Views of a text by its lexemes

The lexemes of a text say what is left of it when gaps are forgotten, and what is left when each
gap is replaced by one space.

## Main definitions

* `Lexeme.plain` : a lexeme with one space for its gap.
* `Lexeme.body`, `Lexeme.bare` : lexemes without the gap in front of the first of them.
* `Lexeme.setOff` : plain lexemes with a gap in front of the first of them.

## Main results

* `Text.lexemes_eq_map_chunk` : gaps do not count among the lexemes of a text.
* `Lexeme.Tight.collapse_ofLexemes`, `Lexeme.Tight.squeeze_body` : what lexemes are when each gap
  between them is one space.
-/

namespace SqlLayout

namespace Lexeme

/-- A lexeme with one space for its gap. -/
def plain (x : Lexeme) : Lexeme := ⟨if x.gap.isEmpty then [] else [' '], x.chunk⟩

/-- The text of lexemes from the first chunk on. -/
def body : List Lexeme → Text
  | [] => []
  | x :: L => x.chunk.text ++ Text.ofLexemes L []

/-- Lexemes without the gap in front of the first of them. -/
def bare : List Lexeme → List Lexeme
  | [] => []
  | x :: L => ⟨[], x.chunk⟩ :: L

@[simp] theorem plain_chunk (x : Lexeme) : x.plain.chunk = x.chunk := rfl

@[simp] theorem plain_plain (x : Lexeme) : x.plain.plain = x.plain := by
  obtain ⟨gap, chunk⟩ := x
  cases gap <;> rfl

@[simp] theorem map_chunk_map_plain (L : List Lexeme) : (L.map plain).map chunk = L.map chunk := by
  simp

@[simp] theorem map_plain_map_plain (L : List Lexeme) : (L.map plain).map plain = L.map plain := by
  rw [List.map_map]
  exact List.map_congr_left fun x _ => x.plain_plain

theorem plain_gap_eq_nil_iff {x : Lexeme} : x.plain.gap = [] ↔ x.gap = [] := by
  obtain ⟨gap, chunk⟩ := x
  cases gap <;> simp [plain]

/-- Lexemes with one space for each gap, and one in front of the first lexeme. -/
def setOff : List Lexeme → List Lexeme
  | [] => []
  | x :: L => ⟨[' '], x.chunk⟩ :: L.map plain

theorem body_append (L M : List Lexeme) (h : L ≠ []) :
    body (L ++ M) = body L ++ Text.ofLexemes M [] := by
  cases L with
  | nil => exact absurd rfl h
  | cons x L => simp [body, Text.ofLexemes]

theorem ofLexemes_bare (L : List Lexeme) (tail : Text) :
    Text.ofLexemes (bare L) tail = body L ++ tail := by
  cases L with
  | nil => rfl
  | cons x L => simp [bare, body, Text.ofLexemes, Lexeme.text]

theorem body_eq_ofLexemes (L : List Lexeme) : body L = Text.ofLexemes (bare L) [] := by
  rw [ofLexemes_bare, List.append_nil]

theorem ofLexemes_eq_gap_append_body (x : Lexeme) (L : List Lexeme) (tail : Text) :
    Text.ofLexemes (x :: L) tail = x.gap ++ (body (x :: L) ++ tail) := by
  simp [body, Text.ofLexemes, Lexeme.text]

theorem map_chunk_bare (L : List Lexeme) : (bare L).map chunk = L.map chunk := by
  cases L <;> rfl

theorem Tight.bare {tail : Text} {L : List Lexeme} (h : Tight tail L) : Tight tail (bare L) := by
  cases L with
  | nil => exact h
  | cons x L => exact ⟨nofun, h.2⟩

theorem isBlank_plain_gap (x : Lexeme) : x.plain.gap.IsBlank := by
  obtain ⟨gap, chunk⟩ := x
  cases gap with
  | nil => exact nofun
  | cons c gap => exact fun b hb => by rw [List.mem_singleton.1 hb, isBlank_space]

theorem Tight.map_plain {tail : Text} {L : List Lexeme} (h : Tight tail L) :
    Tight tail (L.map plain) := by
  refine h.map fun x _ hsound => ?_
  exact ⟨x.isBlank_plain_gap, mt plain_gap_eq_nil_iff.1, hsound, id, rfl⟩

theorem Tight.tight_setOff {tail : Text} {L : List Lexeme} (h : Tight tail L) :
    Tight tail (setOff L) := by
  cases L with
  | nil => exact h
  | cons x L =>
    have hplain := h.map_plain
    exact ⟨fun c hc => by rw [List.mem_singleton.1 hc, isBlank_space], hplain.2⟩

theorem map_plain_widen {gap : Text} (h : gap ≠ []) (L : List Lexeme) :
    (widen gap L).map plain = setOff L := by
  cases L with
  | nil => rfl
  | cons x L => simp [widen, plain, setOff, h]

@[simp] theorem setOff_widen (gap : Text) (L : List Lexeme) : setOff (widen gap L) = setOff L := by
  cases L <;> rfl

theorem setOff_append {L : List Lexeme} (h : L ≠ []) (M : List Lexeme) :
    setOff (L ++ M) = setOff L ++ M.map plain := by
  cases L with
  | nil => exact absurd rfl h
  | cons x L => simp [setOff]

@[simp] theorem map_chunk_setOff (L : List Lexeme) : (setOff L).map chunk = L.map chunk := by
  cases L with
  | nil => rfl
  | cons x L => simp [setOff]

@[simp] theorem setOff_map_plain (L : List Lexeme) : setOff (L.map plain) = setOff L := by
  cases L with
  | nil => rfl
  | cons x L => simp [setOff]

theorem body_bare (L : List Lexeme) : body (bare L) = body L := by
  cases L <;> rfl

theorem collapsed_of_sound {chunk : Chunk} (h : chunk.Sound) : chunk.collapsed = chunk.text := by
  cases chunk with
  | blank run => exact h.elim
  | _ => rfl

theorem collapsed_chunks {x : Lexeme} (h : x.chunk.Sound) :
    x.chunks.flatMap Chunk.collapsed = x.plain.text := by
  obtain ⟨gap, chunk⟩ := x
  rw [chunks, List.flatMap_append, List.flatMap_singleton, collapsed_of_sound h]
  cases gap <;> rfl

theorem Tight.flatMap_collapsed_chunks {tail : Text} {L : List Lexeme} (h : Tight tail L) :
    (L.flatMap chunks).flatMap Chunk.collapsed = (L.map plain).flatMap text := by
  induction L with
  | nil => rfl
  | cons x L ih =>
    rw [List.flatMap_cons, List.flatMap_append, ih h.2.2.2.2, collapsed_chunks h.2.1]
    rfl

/-- Lexemes with collapsed gaps have one space in each gap. -/
theorem Tight.collapse_ofLexemes {tail : Text} {L : List Lexeme} (h : Tight tail L) :
    (Text.ofLexemes L tail).collapse =
      Text.ofLexemes (L.map plain) (if tail.isEmpty then [] else [' ']) := by
  rw [Text.collapse, h.chunks_ofLexemes, List.flatMap_append, h.flatMap_collapsed_chunks]
  cases tail <;> rfl

theorem Tight.map_plain_collapsed {tail : Text} {L : List Lexeme} (h : Tight tail L) :
    Tight (if tail.isEmpty then [] else [' ']) (L.map plain) := by
  refine h.map_plain.with_tail ?_ fun hnil => by simp [hnil]
  split
  · exact nofun
  · exact fun c hc => by rw [List.mem_singleton.1 hc, isBlank_space]

/-- The same from the first chunk on. -/
theorem Tight.collapse_body {L : List Lexeme} (h : Tight [] L) :
    (body L).collapse = body (L.map plain) := by
  rw [body_eq_ofLexemes, h.bare.collapse_ofLexemes, body_eq_ofLexemes]
  cases L <;> rfl

theorem dropLastBlank_chunks_append {x : Lexeme} (h : x.chunk.Sound) (rest : List Chunk) :
    Chunk.dropLastBlank (x.chunks ++ rest) = x.chunks ++ Chunk.dropLastBlank rest := by
  have hchunk (l : List Chunk) : Chunk.dropLastBlank (x.chunk :: l) =
      x.chunk :: Chunk.dropLastBlank l := by
    cases hx : x.chunk with
    | blank run => exact (hx ▸ h).elim
    | _ => rfl
  rw [chunks, List.append_assoc, List.singleton_append, List.append_assoc, List.singleton_append,
    ← hchunk]
  cases x.gap <;> rfl

/-- Lexemes whose gaps are squeezed have one space in each gap between them, and none behind. -/
theorem Tight.squeeze_body {tail : Text} {L : List Lexeme} (h : Tight tail L) :
    (body L ++ tail).squeeze = body (L.map plain) := by
  have hdrop : ∀ {M : List Lexeme}, Tight tail M →
      Chunk.dropLastBlank (M.flatMap chunks ++ Chunk.ofGap tail) = M.flatMap chunks := by
    intro M hM
    induction M with
    | nil => cases tail <;> rfl
    | cons x M ih =>
      rw [List.flatMap_cons, List.append_assoc, dropLastBlank_chunks_append hM.2.1,
        ih hM.2.2.2.2]
  rw [← ofLexemes_bare, Text.squeeze, h.bare.chunks_ofLexemes, hdrop h.bare,
    h.bare.flatMap_collapsed_chunks]
  cases L with
  | nil => rfl
  | cons x L => simp [Lexeme.bare, body, Text.ofLexemes, plain, text]

end Lexeme

namespace Text

theorem lexemes_ofLexemes {tail : Text} {L : List Lexeme} (h : Lexeme.Tight tail L) :
    (ofLexemes L tail).lexemes = L.map Lexeme.chunk := by
  have hgap (gap : Text) : (Chunk.ofGap gap).filter (fun chunk => !chunk.isBlank) = [] := by
    cases gap <;> rfl
  rw [lexemes, h.chunks_ofLexemes, List.filter_append, hgap, List.append_nil]
  induction L with
  | nil => rfl
  | cons x L ih =>
    have hx : x.chunk.isBlank = false := by
      cases hchunk : x.chunk with
      | blank run => exact (hchunk ▸ h.2.1 : (Chunk.blank run).Sound).elim
      | _ => rfl
    rw [List.flatMap_cons, List.filter_append, ih h.2.2.2.2]
    simp [Lexeme.chunks, hgap, hx]

/-- Gaps do not count among the lexemes of a text. -/
theorem lexemes_eq_map_chunk (t : Text) : t.lexemes = t.toLexemes.map Lexeme.chunk := by
  rw [← lexemes_ofLexemes t.tight_toLexemes, ofLexemes_toLexemes]

end Text

end SqlLayout
