import Mathlib.Data.List.DropRight
import SqlLayout.Proofs.Text.Collapse

/-!
# The ends of texts

Trimming takes blank characters off the end of a text, also such that a quoted region holds which
is left open.  So it may shorten the last lexeme of a text, but it takes none away, and it commutes
with replacing gaps by spaces.

## Main definitions

* `Text.IsSolid` : a text that begins and ends with a character that is not blank.
* `Lexeme.Finished` : lexemes that end in a character that is not blank.
* `Lexeme.trimLast` : lexemes with the blank characters at their end taken off.

## Main results

* `Chunk.Sound.exists_concat` : a closed chunk ends in a character that is not blank.
* `Lexeme.body_trimLast`, `Lexeme.Tight.trimLast` : trimmed lexemes are lexemes again.
-/

namespace SqlLayout

namespace Text

/-- A text that begins and ends with a character that is not blank. -/
def IsSolid (t : Text) : Prop :=
  (∃ c u, t = c :: u ∧ isBlank c = false) ∧ ∃ u c, t = u ++ [c] ∧ isBlank c = false

theorem trimEnd_eq_rdropWhile (t : Text) : t.trimEnd = t.rdropWhile isBlank := rfl

/-- Characters that are dropped at the end of a text do not matter in front of it. -/
theorem rdropWhile_append {p : Char → Bool} {u : Text} (hu : ∀ c ∈ u, p c = true) (t : Text) :
    (t ++ u).rdropWhile p = t.rdropWhile p := by
  have hreverse : ∀ c ∈ u.reverse, p c = true := fun c hc => hu c (List.mem_reverse.1 hc)
  rw [List.rdropWhile, List.reverse_append, List.dropWhile_append_of_pos hreverse, List.rdropWhile]

theorem trimEnd_append_of_isBlank (t : Text) {gap : Text} (h : gap.IsBlank) :
    (t ++ gap).trimEnd = t.trimEnd := by
  rw [trimEnd_eq_rdropWhile, trimEnd_eq_rdropWhile, rdropWhile_append h]

theorem trimEnd_concat_of_not_blank {c : Char} {t : Text} (h : isBlank c = false) :
    (t ++ [c]).trimEnd = t ++ [c] := by
  rw [trimEnd_eq_rdropWhile, List.rdropWhile_concat_neg _ _ _ (by simp [h])]

/-- A text is blank to its end behind a part that ends in no blank character. -/
theorem exists_solid_end (t : Text) :
    t.IsBlank ∨ ∃ (u : Text) (c : Char) (gap : Text),
      t = u ++ [c] ++ gap ∧ isBlank c = false ∧ gap.IsBlank := by
  induction t with
  | nil => exact Or.inl nofun
  | cons d t ih =>
    rcases ih with hblank | ⟨u, c, gap, rfl, hc, hgap⟩
    · cases hd : isBlank d with
      | true => exact Or.inl (List.forall_mem_cons.2 ⟨hd, hblank⟩)
      | false => exact Or.inr ⟨[], d, t, rfl, hd, hblank⟩
    · exact Or.inr ⟨d :: u, c, gap, rfl, hc, hgap⟩

theorem trimEnd_of_isBlank {t : Text} (h : t.IsBlank) : t.trimEnd = [] := by
  rw [trimEnd_eq_rdropWhile, List.rdropWhile_eq_nil_iff.2 h]

theorem trimEnd_solid_end {u gap : Text} {c : Char} (hc : isBlank c = false)
    (hgap : gap.IsBlank) : (u ++ [c] ++ gap).trimEnd = u ++ [c] := by
  rw [trimEnd_append_of_isBlank _ hgap, trimEnd_concat_of_not_blank hc]

theorem trimEnd_append {t : Text} (h : ¬ t.IsBlank) (s : Text) :
    (s ++ t).trimEnd = s ++ t.trimEnd := by
  obtain ⟨u, c, gap, rfl, hc, hgap⟩ := t.exists_solid_end.resolve_left h
  rw [trimEnd_solid_end hc hgap, ← List.append_assoc, ← List.append_assoc,
    trimEnd_solid_end hc hgap, List.append_assoc]

@[simp] theorem trimEnd_trimEnd (t : Text) : t.trimEnd.trimEnd = t.trimEnd := by
  rw [trimEnd_eq_rdropWhile, trimEnd_eq_rdropWhile, List.rdropWhile_idempotent]

theorem isBlank_of_getLast?_trimEnd (t : Text) : ∀ c ∈ t.trimEnd.getLast?, isBlank c = false := by
  rcases t.exists_solid_end with hblank | ⟨u, c, gap, rfl, hc, hgap⟩
  · rw [trimEnd_of_isBlank hblank]
    nofun
  · rw [trimEnd_solid_end hc hgap, List.getLast?_concat]
    rintro d ⟨⟩
    exact hc

theorem trim_eq_trimEnd {t : Text} (h : t.startsBlank = false) : t.trim = t.trimEnd := by
  cases t with
  | nil => rfl
  | cons c t => rw [trim, trimStart_eq_self h]

end Text

/-! ### The ends of chunks -/

namespace Chunk

theorem exists_concat_of_staysOpen {s : Quoting} {body : Text} (h : s.StaysOpen body)
    (hs : s.isOpen = true) (hend : s.after body = .outside) :
    ∃ t, ∃ q : Quote, body = t ++ [q.char] := by
  induction body generalizing s with
  | nil =>
    rw [Quoting.after_nil] at hend
    rw [hend] at hs
    cases hs
  | cons c body ih =>
    cases hopen : (s.next c).isOpen with
    | true =>
      obtain ⟨t, q, rfl⟩ := ih h.2 hopen hend
      exact ⟨c :: t, q, rfl⟩
    | false =>
      have hnil : body = [] := by
        cases body with
        | nil => rfl
        | cons d body =>
          rw [h.2.1] at hopen
          cases hopen
      subst hnil
      have hnext : s.next c = .outside := hend
      cases s with
      | outside => cases hs
      | inside q =>
        refine ⟨[], q, ?_⟩
        rw [Quoting.next] at hnext
        split at hnext
        · cases hnext
        · split at hnext
          · rename_i hc
            rw [hc]
            rfl
          · cases hnext
      | escaped q => cases hnext

/-- A closed chunk ends in a character that is not blank, and in a word character exactly if it is
a word. -/
theorem Sound.exists_concat {chunk : Chunk} (h : chunk.Sound) (hclosed : chunk.Closed) :
    ∃ t c, chunk.text = t ++ [c] ∧ SqlLayout.isBlank c = false ∧ isWordChar c = chunk.isWord := by
  cases chunk with
  | quoted region =>
    obtain ⟨q, body, rfl, hbody⟩ := h
    have hend : (Quoting.inside q).after body = .outside := by
      simpa [Closed, text] using hclosed
    obtain ⟨t, q', rfl⟩ := exists_concat_of_staysOpen hbody rfl hend
    exact ⟨q.char :: t, q'.char, rfl, isBlank_quote q', isWordChar_quote q'⟩
  | word letters =>
    obtain ⟨hne, hword⟩ := h
    obtain ⟨t, c, rfl⟩ : ∃ t c, letters = t ++ [c] :=
      ⟨_, _, (List.dropLast_concat_getLast hne).symm⟩
    have hc : isWordChar c = true := hword c (by simp)
    exact ⟨t, c, rfl, isBlank_of_isWordChar hc, hc⟩
  | blank run => exact h.elim
  | other c => exact ⟨[], c, rfl, h.2.1, h.2.2⟩

theorem staysOpen_left {s : Quoting} {t u : Text} (h : s.StaysOpen (t ++ u)) : s.StaysOpen t := by
  induction t generalizing s with
  | nil => trivial
  | cons c t ih => exact ⟨h.1, ih h.2⟩

theorem Sound.not_isBlank_text {chunk : Chunk} (h : chunk.Sound) : ¬ chunk.text.IsBlank := by
  obtain ⟨c, t, ht, hc, -⟩ := h.exists_cons
  intro hblank
  rw [hblank c (by rw [ht]; exact List.mem_cons_self)] at hc
  cases hc

/-- A chunk with the blank characters at its end taken off. -/
def trimmed : Chunk → Chunk
  | quoted region => quoted region.trimEnd
  | chunk => chunk

@[simp] theorem isWord_trimmed (chunk : Chunk) : chunk.trimmed.isWord = chunk.isWord := by
  cases chunk <;> rfl

theorem Sound.text_trimmed {chunk : Chunk} (h : chunk.Sound) :
    chunk.trimmed.text = chunk.text.trimEnd := by
  rcases h.closed_or_quoted with hclosed | ⟨region, rfl⟩
  · obtain ⟨t, c, ht, hc, -⟩ := h.exists_concat hclosed
    have htrim : chunk.text.trimEnd = chunk.text := by
      rw [ht, Text.trimEnd_concat_of_not_blank hc]
    rw [htrim]
    cases chunk with
    | quoted region => exact htrim
    | _ => rfl
  · rfl

/-- A chunk with blank characters taken off its end is a chunk again. -/
theorem Sound.trimmed {chunk : Chunk} (h : chunk.Sound) : chunk.trimmed.Sound := by
  cases chunk with
  | quoted region =>
    obtain ⟨u, c, gap, htext, hc, hgap⟩ :=
      (Text.exists_solid_end region).resolve_left h.not_isBlank_text
    obtain ⟨q, body, rfl, hbody⟩ := h
    have htrim : Text.trimEnd (q.char :: body) = u ++ [c] := by
      rw [htext, Text.trimEnd_solid_end hc hgap]
    rw [Chunk.trimmed, htrim]
    cases u with
    | nil =>
      obtain ⟨rfl, -⟩ := List.cons.inj htext
      exact ⟨q, [], rfl, trivial⟩
    | cons d u =>
      obtain ⟨rfl, rfl⟩ := List.cons.inj htext
      exact ⟨q, u ++ [c], rfl, staysOpen_left hbody⟩
  | _ => exact h

end Chunk

/-! ### The ends of lexemes -/

namespace Lexeme

theorem body_cons_cons (x y : Lexeme) (L : List Lexeme) :
    body (x :: y :: L) = x.chunk.text ++ y.gap ++ body (y :: L) := by
  simp [body, Text.ofLexemes, text]

/-- Trimming goes no further than into the last lexeme. -/
theorem trimEnd_body_cons_cons {y : Lexeme} (h : y.chunk.Sound) (x : Lexeme) (L : List Lexeme) :
    (body (x :: y :: L)).trimEnd = x.chunk.text ++ y.gap ++ (body (y :: L)).trimEnd := by
  rw [body_cons_cons, Text.trimEnd_append]
  exact fun hblank => h.not_isBlank_text fun c hc => hblank c (List.mem_append_left _ hc)

/-- The last chunk does not end in a blank character, as a region that is left open can. -/
def Finished (L : List Lexeme) : Prop :=
  ∀ x ∈ L.getLast?, x.chunk.text.trimEnd = x.chunk.text

theorem Finished.congr {L M : List Lexeme} (h : Finished L) (heq : L.map chunk = M.map chunk) :
    Finished M := by
  intro x hx
  have hlast := congrArg List.getLast? heq
  rw [List.getLast?_map, List.getLast?_map, Option.mem_def.1 hx] at hlast
  obtain ⟨y, hy, hchunk⟩ := Option.map_eq_some_iff.1 hlast
  rw [← hchunk]
  exact h y hy

theorem Finished.right {L M : List Lexeme} (h : Finished (L ++ M)) : Finished M := by
  intro x hx
  refine h x ?_
  rw [List.getLast?_append, Option.mem_def.1 hx]
  rfl

theorem Tight.finished {tail : Text} {L : List Lexeme} (h : Tight tail L)
    (hclosed : ∀ x ∈ L, x.chunk.Closed) : Finished L := by
  intro x hx
  have hmem := List.mem_of_getLast? hx
  obtain ⟨t, c, htext, hc, -⟩ := (h.sound x hmem).exists_concat (hclosed x hmem)
  rw [htext, Text.trimEnd_concat_of_not_blank hc]

/-- Nothing is taken off the end of lexemes if nothing is taken off the last of them. -/
theorem Tight.trimEnd_body {tail : Text} {L : List Lexeme} (h : Tight tail L) (hL : Finished L) :
    (body L).trimEnd = body L := by
  induction L with
  | nil => rfl
  | cons x L ih =>
    cases L with
    | nil =>
      have hbody : body [x] = x.chunk.text := by simp [body]
      rw [hbody]
      exact hL x rfl
    | cons y L =>
      rw [trimEnd_body_cons_cons h.2.2.2.2.2.1, body_cons_cons, ih h.2.2.2.2]
      intro z hz
      exact hL z (by rwa [List.getLast?_cons_cons])

/-- Lexemes with the blank characters at the end of the last chunk taken off. -/
def trimLast : List Lexeme → List Lexeme
  | [] => []
  | [x] => [⟨x.gap, x.chunk.trimmed⟩]
  | x :: y :: L => x :: trimLast (y :: L)

theorem trimLast_append (L : List Lexeme) {M : List Lexeme} (h : M ≠ []) :
    trimLast (L ++ M) = L ++ trimLast M := by
  induction L with
  | nil => rfl
  | cons x L ih =>
    cases L with
    | nil =>
      obtain ⟨y, M, rfl⟩ := List.exists_cons_of_ne_nil h
      rfl
    | cons y L => rw [List.cons_append, List.cons_append, trimLast, ← List.cons_append, ih]; rfl

theorem map_plain_trimLast (L : List Lexeme) :
    (trimLast L).map plain = trimLast (L.map plain) := by
  induction L with
  | nil => rfl
  | cons x L ih =>
    cases L with
    | nil => rfl
    | cons y L => rw [trimLast, List.map_cons, ih]; rfl

/-- Trimming takes blank characters off the last lexeme. -/
theorem body_trimLast {L : List Lexeme} (h : ∀ x ∈ L, x.chunk.Sound) :
    body (trimLast L) = (body L).trimEnd := by
  induction L with
  | nil => rfl
  | cons x L ih =>
    obtain ⟨hx, hL⟩ := List.forall_mem_cons.1 h
    cases L with
    | nil => simp [trimLast, body, hx.text_trimmed]
    | cons y L =>
      rw [trimEnd_body_cons_cons (hL y List.mem_cons_self), ← ih hL]
      cases L with
      | nil => simp [trimLast, body_cons_cons]
      | cons z L => rw [trimLast, trimLast, body_cons_cons]

/-- Trimmed lexemes are lexemes again. -/
theorem Tight.trimLast {L : List Lexeme} (h : Tight [] L) : Tight [] (trimLast L) := by
  induction L with
  | nil => exact h
  | cons x L ih =>
    obtain ⟨hgap, hsound, hend, hsep, hL⟩ := h
    cases L with
    | nil => exact ⟨hgap, hsound.trimmed, Or.inr ⟨rfl, rfl⟩, trivial, hL⟩
    | cons y L =>
      have hclosed := hend.resolve_right fun hnil => List.cons_ne_nil y L hnil.1
      refine ⟨hgap, hsound, Or.inl hclosed, ?_, ih hL⟩
      cases L with
      | nil => exact fun hx hy => hsep hx (by simpa using hy)
      | cons z L => exact hsep

end Lexeme

end SqlLayout
