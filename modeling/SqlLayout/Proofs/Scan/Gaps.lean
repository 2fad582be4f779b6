import Mathlib.Data.List.Forall2
import SqlLayout.Proofs.Scan.Sources
import SqlLayout.Proofs.Scan.Tokens
import SqlLayout.Proofs.Text.Flow

/-!
# Scans and gaps

The hits that a scan finds depend on gaps in two ways only: characters of a symbol must not have a
gap between them, and a hit is looked for behind each gap.  So lexemes keep their marks when gaps
become wider, when gaps in front of commas are lost, and when a gap is put where nothing is found.

## Main definitions

* `Lexeme.Regapped` : a lexeme with another gap, which is lost only in front of a comma.
* `Scan.Regapped` : marks with other gaps, and no new gap where a hit would be found.
* `Mark.plain`, `Mark.setOff` : marks with one space for each gap.

## Main results

* `Lexeme.hit?_congr` : the hit at the start of lexemes with other gaps.
* `Scan.Valid.of_regapped` : marks with other gaps are valid again.
* `Scan.marks_setOff`, `Mark.tokensAfter_setOff` : the width of gaps does not matter to tokens.
-/

namespace SqlLayout

namespace Lexeme

/-- A lexeme with another gap.  A gap may be put in front of it, and one is lost only in front of a
comma. -/
def Regapped (x y : Lexeme) : Prop :=
  y.chunk = x.chunk ∧ (x.gap ≠ [] → y.gap = [] → x.chunk = .other ',')

theorem regapped_plain (x : Lexeme) : Regapped x x.plain :=
  ⟨rfl, fun hx hy => absurd (plain_gap_eq_nil_iff.1 hy) hx⟩

theorem forall₂_regapped_map_plain (L : List Lexeme) :
    List.Forall₂ Regapped L (L.map plain) := by
  induction L with
  | nil => exact .nil
  | cons x L ih => exact .cons x.regapped_plain ih

theorem forall₂_regapped_setOff (L : List Lexeme) : List.Forall₂ Regapped L (setOff L) := by
  cases L with
  | nil => exact .nil
  | cons x L => exact .cons ⟨rfl, fun _ hnil => by cases hnil⟩ (forall₂_regapped_map_plain L)

theorem bare_map_plain_setOff (L : List Lexeme) :
    bare ((setOff L).map plain) = bare (L.map plain) := by
  cases L with
  | nil => rfl
  | cons x L => simp [setOff, bare]

theorem map_keyword?_congr {L M : List Lexeme} (h : List.Forall₂ Regapped L M) :
    M.map keyword? = L.map keyword? := by
  induction h with
  | nil => rfl
  | cons hxy _ ih =>
    rw [List.map_cons, List.map_cons, ih]
    unfold keyword?
    rw [hxy.1]

theorem spells_congr {L M : List Lexeme} (h : List.Forall₂ Regapped L M) (ks : List Keyword) :
    spells ks M = spells ks L := by
  rw [spells, spells, map_keyword?_congr h]

/-- New gaps put no characters of a symbol together. -/
theorem adjoins_of_regapped {L M : List Lexeme} (h : List.Forall₂ Regapped L M) {s : Text}
    (hs : ∀ c ∈ s, c ≠ ',') (hM : adjoins s M = true) : adjoins s L = true := by
  induction s generalizing L M with
  | nil => rfl
  | cons c s ih =>
    cases h with
    | nil => exact hM
    | @cons x y L M hxy hLM =>
      simp only [adjoins, Bool.and_eq_true, List.isEmpty_iff, beq_iff_eq] at hM ⊢
      obtain ⟨⟨hgap, hchunk⟩, hM⟩ := hM
      refine ⟨⟨?_, hxy.1 ▸ hchunk⟩, ih hLM (fun b hb => hs b (List.mem_cons_of_mem c hb)) hM⟩
      by_contra hx
      have hcomma := hxy.2 hx hgap
      rw [← hxy.1, hchunk] at hcomma
      exact hs c List.mem_cons_self (Chunk.other.inj hcomma)

theorem forall₂_regapped_bare {L M : List Lexeme} (h : List.Forall₂ Regapped L M) :
    List.Forall₂ Regapped (bare L) (bare M) := by
  cases h with
  | nil => exact .nil
  | cons hxy hLM => exact .cons ⟨hxy.1, fun hne => absurd rfl hne⟩ hLM

theorem ne_comma_of_mem_symbols {s : Text} (hs : s ∈ Family.comparison.symbols) :
    ∀ c ∈ s, c ≠ ',' := by
  have key : ∀ s ∈ Family.comparison.symbols, ',' ∉ s := by decide
  rintro c hc rfl
  exact key s hs hc

/-! ### Hits with other gaps -/

/-- No symbol begins with a word. -/
theorem adjoins_bare_of_isWord {x : Lexeme} (h : x.chunk.isWord = true) (L : List Lexeme) {s : Text}
    (hs : s ≠ []) : adjoins s (bare (x :: L)) = false := by
  obtain ⟨c, s, rfl⟩ := List.exists_cons_of_ne_nil hs
  have hchunk : (x.chunk == .other c) = false := by
    rw [beq_eq_false_iff_ne]
    intro heq
    rw [heq] at h
    cases h
  simp [bare, adjoins, hchunk]

theorem symbolRead?_of_isWord {x : Lexeme} (h : x.chunk.isWord = true) (L : List Lexeme)
    (f : Family) : f.symbolRead? (x :: L) = none := by
  rw [Family.symbolRead?, Option.map_eq_none_iff, List.find?_eq_none]
  intro s hs
  simp [adjoins_bare_of_isWord h L (Family.ne_nil_of_mem_symbols hs)]

/-- No phrase begins with anything but a word. -/
theorem phraseRead?_of_not_isWord {x : Lexeme} (h : x.chunk.isWord = false) (L : List Lexeme)
    (f : Family) : f.phraseRead? (x :: L) = none := by
  rw [Family.phraseRead?, List.findSome?_eq_none_iff]
  intro p _
  have hfirst : (x.keyword? == some p.first) = false := by
    rw [beq_eq_false_iff_ne]
    intro hk
    rw [isWord_of_keyword? hk] at h
    cases h
  rw [Phrase.keywords, spells_cons_cons, hfirst]
  rfl

/-- Where no word begins, a hit can only be that of a symbol. -/
theorem hit?_of_not_isWord {x : Lexeme} (h : x.chunk.isWord = false) (L : List Lexeme) :
    hit? (x :: L) = Family.comparison.symbolRead? (x :: L) := by
  have hread (f : Family) : f.read? (x :: L) = f.symbolRead? (x :: L) := by
    rw [Family.read?, phraseRead?_of_not_isWord h, Option.or_none]
  have hnone (f : Family) (hf : f.symbols = []) : f.symbolRead? (x :: L) = none := by
    rw [Family.symbolRead?, hf]
    rfl
  simp [hit?, Family.table, List.findSome?, hread, hnone _ (rfl : Family.select.symbols = []),
    hnone _ (rfl : Family.join.symbols = []), hnone _ (rfl : Family.order.symbols = []),
    hnone _ (rfl : Family.clause.symbols = []), hnone _ (rfl : Family.conjunction.symbols = [])]
  cases Family.comparison.symbolRead? (x :: L) <;> rfl

theorem find?_eq_some_of_imp {α : Type} {p q : α → Bool} {l : List α} {a : α}
    (h : l.find? p = some a) (himp : ∀ b ∈ l, q b = true → p b = true) (ha : q a = true) :
    l.find? q = some a := by
  obtain ⟨-, l₁, l₂, rfl, hl₁⟩ := List.find?_eq_some_iff_append.1 h
  refine List.find?_eq_some_iff_append.2 ⟨ha, l₁, l₂, rfl, fun b hb => ?_⟩
  rw [Bool.not_eq_true', Bool.eq_false_iff]
  intro hq
  have hp := himp b (List.mem_append_left _ hb) hq
  have hnot := hl₁ b hb
  rw [hp] at hnot
  cases hnot

/-- The hit at the start of lexemes with other gaps is the same, if the characters of its symbol
still adjoin each other. -/
theorem hit?_congr {L M : List Lexeme} (h : List.Forall₂ Regapped L M)
    (hkeep : ∀ s ∈ Family.comparison.symbols, hit? L = some (s.length, ⟨.compare, s⟩) →
      adjoins s (bare L) = true → adjoins s (bare M) = true) : hit? M = hit? L := by
  cases h with
  | nil => rfl
  | @cons x y L M hxy hLM =>
    have hall : List.Forall₂ Regapped (x :: L) (y :: M) := .cons hxy hLM
    cases hword : x.chunk.isWord with
    | true =>
      have hread (f : Family) : f.read? (y :: M) = f.read? (x :: L) := by
        rw [Family.read?, Family.read?, symbolRead?_of_isWord hword,
          symbolRead?_of_isWord (hxy.1 ▸ hword), Family.phraseRead?, Family.phraseRead?]
        simp only [spells_congr hall]
      simp only [hit?, hread]
    | false =>
      rw [hit?_of_not_isWord hword] at hkeep ⊢
      rw [hit?_of_not_isWord (hxy.1 ▸ hword)]
      rw [Family.symbolRead?] at hkeep ⊢
      have himp : ∀ s ∈ Family.comparison.symbols,
          adjoins s (bare (y :: M)) = true → adjoins s (bare (x :: L)) = true := fun s hs =>
        adjoins_of_regapped (forall₂_regapped_bare hall) (ne_comma_of_mem_symbols hs)
      cases hfind : Family.comparison.symbols.find? fun s => adjoins s (bare (x :: L)) with
      | none =>
        have hnone :
            (Family.comparison.symbols.find? fun s => adjoins s (bare (y :: M))) = none := by
          rw [List.find?_eq_none] at hfind ⊢
          exact fun s hs hM => hfind s hs (himp s hs hM)
        rw [Family.symbolRead?, hnone, hfind]
      | some s =>
        rw [hfind] at hkeep
        have hmem := List.mem_of_find?_eq_some hfind
        have hs := List.find?_some (p := fun s => adjoins s (bare (x :: L))) hfind
        rw [Family.symbolRead?, find?_eq_some_of_imp hfind himp (hkeep s hmem rfl hs), hfind]

/-- A symbol stands exactly where a hit does and no word begins. -/
theorem startsSymbol_eq (x : Lexeme) (L : List Lexeme) :
    startsSymbol (x :: L) = (!x.chunk.isWord && (hit? (x :: L)).isSome) := by
  cases hword : x.chunk.isWord with
  | true =>
    rw [startsSymbol, Bool.not_true, Bool.false_and, List.any_eq_false]
    intro s hs
    simp [adjoins_bare_of_isWord hword L (Family.ne_nil_of_mem_symbols hs)]
  | false =>
    rw [hit?_of_not_isWord hword, Family.symbolRead?, Option.isSome_map, startsSymbol,
      Bool.not_false, Bool.true_and, Bool.eq_iff_iff, List.any_eq_true, List.find?_isSome]

end Lexeme

/-! ### Marks with other gaps -/

namespace Scan

/-- Where a scan finds nothing it finds nothing with other gaps, unless a new gap stands in front of
a hit. -/
theorem hit?_eq_none_of_regapped {s : Scan} {x y : Lexeme} {L M : List Lexeme}
    (h : s.hit? (x :: L) = none) (hLM : List.Forall₂ Lexeme.Regapped (x :: L) (y :: M))
    (hgap : s.depth = 0 → x.gap = [] → y.gap ≠ [] →
      s.ready = true ∨ Lexeme.hit? (x :: L) = none) : s.hit? (y :: M) = none := by
  by_cases hd : s.depth = 0
  · have htried (htried : s.ready = true ∨ x.gap ≠ [] ∨ Lexeme.startsSymbol (x :: L) = true) :
        Lexeme.hit? (x :: L) = none :=
      (hit?_of_tried hd htried).symm.trans h
    have hsymbol : Lexeme.startsSymbol (x :: L) = false := by
      rw [Bool.eq_false_iff]
      intro hs
      have hsome := Lexeme.isSome_hit?_of_startsSymbol hs
      rw [htried (Or.inr (Or.inr hs))] at hsome
      cases hsome
    have hhit : Lexeme.hit? (y :: M) = Lexeme.hit? (x :: L) :=
      Lexeme.hit?_congr hLM fun s hs _ hadjoins => by
        rw [Lexeme.startsSymbol, List.any_eq_false] at hsymbol
        exact absurd hadjoins (hsymbol s hs)
    have hchunk : y.chunk = x.chunk := (List.forall₂_cons.1 hLM).1.1
    have hsymbol' : Lexeme.startsSymbol (y :: M) = false := by
      rw [Lexeme.startsSymbol_eq, hhit, hchunk, ← Lexeme.startsSymbol_eq, hsymbol]
    rw [hit?]
    split
    · rename_i htried'
      rw [hhit]
      simp only [hd, hsymbol', beq_self_eq_true, Bool.true_and, Bool.or_false, Bool.or_eq_true,
        Bool.not_eq_true', List.isEmpty_eq_false_iff] at htried'
      rcases htried' with hready | hy
      · exact htried (Or.inl hready)
      · by_cases hx : x.gap = []
        · rcases hgap hd hx hy with hready | hnone
          · exact htried (Or.inl hready)
          · exact hnone
        · exact htried (Or.inr (Or.inl hx))
    · rfl
  · rw [hit?, if_neg]
    simp [hd]

/-- A keyword token keeps its hit if no gap inside it is new. -/
theorem hit?_eq_some_of_regapped {s : Scan} {src src' L M : List Lexeme} {token : Token}
    (h : s.hit? (src ++ L) = some (src.length, token))
    (hsrc : List.Forall₂ Lexeme.Regapped src src')
    (hinside : Lexeme.bare (src'.map Lexeme.plain) = Lexeme.bare (src.map Lexeme.plain))
    (hLM : List.Forall₂ Lexeme.Regapped L M) :
    s.hit? (src' ++ M) = some (src'.length, token) := by
  obtain ⟨hd, hhit⟩ := hit?_eq_some h
  have hkeyword := Lexeme.inKeyword_of_hit? hhit
  have hpos := (Lexeme.length_of_hit? hhit).1
  have hall := List.rel_append hsrc hLM
  have hhit' : Lexeme.hit? (src' ++ M) = some (src.length, token) := by
    rw [Lexeme.hit?_congr hall, hhit]
    intro t _ ht hadjoins
    have hlen : src.length = t.length := by
      rw [hhit] at ht
      exact (Prod.mk.inj (Option.some.inj ht)).1
    have hne : src ≠ [] := List.length_pos_iff.1 hpos
    have hne' : src' ≠ [] := by
      rintro rfl
      rw [List.forall₂_nil_right_iff.1 hsrc] at hne
      exact hne rfl
    rw [Lexeme.bare_append hne, Lexeme.adjoins_append (by rw [Lexeme.length_bare, hlen]),
      ← Lexeme.adjoins_map_plain, ← Lexeme.bare_map_plain] at hadjoins
    rw [Lexeme.bare_append hne', Lexeme.adjoins_append
      (by rw [Lexeme.length_bare, ← hsrc.length_eq, hlen]), ← Lexeme.adjoins_map_plain,
      ← Lexeme.bare_map_plain, hinside, hadjoins]
  cases hsrc with
  | nil => exact absurd hpos (Nat.lt_irrefl 0)
  | @cons x y ws ws' hxy hws =>
    have hsymbol : Lexeme.startsSymbol (y :: (ws' ++ M)) =
        Lexeme.startsSymbol (x :: (ws ++ L)) := by
      have hhit : Lexeme.hit? (x :: (ws ++ L)) = _ := hhit
      have hhit' : Lexeme.hit? (y :: (ws' ++ M)) = _ := hhit'
      rw [Lexeme.startsSymbol_eq, Lexeme.startsSymbol_eq, hhit, hhit', hxy.1]
    have hgap : x.gap ≠ [] → y.gap ≠ [] := by
      intro hx hy
      have hcomma := hkeyword x List.mem_cons_self
      rw [hxy.2 hx hy] at hcomma
      exact absurd hcomma (by decide : ',' ∉ "<>=!".toList)
    rw [List.cons_append, hit?] at h ⊢
    rw [Option.ite_none_right_eq_some] at h
    have htried := h.1
    simp only [hd, beq_self_eq_true, Bool.true_and, Bool.or_eq_true, Bool.not_eq_true',
      List.isEmpty_eq_false_iff] at htried
    rw [if_pos]
    · rw [List.length_cons, ← hws.length_eq]
      exact hhit'
    · simp only [hd, beq_self_eq_true, Bool.true_and, Bool.or_eq_true, Bool.not_eq_true',
        List.isEmpty_eq_false_iff, hsymbol]
      exact htried.imp_left (Or.imp_right hgap)

/-- Marks with other gaps.  A keyword token gets no new gap inside, and where nothing has been found
no hit stands behind a new gap. -/
def Regapped : Scan → List Mark → List Mark → Prop
  | _, [], [] => True
  | s, .free x :: M, .free y :: N =>
    x.Regapped y ∧ (s.depth = 0 → x.gap = [] → y.gap ≠ [] →
      s.ready = true ∨ Lexeme.hit? (x :: M.flatMap Mark.source) = none) ∧ (s.next x).Regapped M N
  | _, .keyword src token :: M, .keyword src' token' :: N =>
    token' = token ∧ List.Forall₂ Lexeme.Regapped src src' ∧
      Lexeme.bare (src'.map Lexeme.plain) = Lexeme.bare (src.map Lexeme.plain) ∧
      start.Regapped M N
  | _, _, _ => False

theorem Regapped.forall₂_source {s : Scan} {M N : List Mark} (h : s.Regapped M N) :
    List.Forall₂ Lexeme.Regapped (M.flatMap Mark.source) (N.flatMap Mark.source) := by
  induction M generalizing s N with
  | nil =>
    cases N with
    | nil => exact .nil
    | cons m N => exact h.elim
  | cons m M ih =>
    cases N with
    | nil => cases m <;> exact h.elim
    | cons n N =>
      cases m with
      | free x =>
        cases n with
        | free y => exact .cons h.1 (ih h.2.2)
        | keyword src token => exact h.elim
      | keyword src token =>
        cases n with
        | free y => exact h.elim
        | keyword src' token' => exact List.rel_append h.2.1 (ih h.2.2.2)

/-- Marks with other gaps are valid again. -/
theorem Valid.of_regapped {s : Scan} {M N : List Mark} (hM : s.Valid M) (h : s.Regapped M N) :
    s.Valid N := by
  induction M generalizing s N with
  | nil =>
    cases N with
    | nil => trivial
    | cons m N => exact h.elim
  | cons m M ih =>
    cases N with
    | nil => cases m <;> exact h.elim
    | cons n N =>
      cases m with
      | free x =>
        cases n with
        | free y =>
          obtain ⟨hxy, hgap, hMN⟩ := h
          have hnext : s.next y = s.next x := by rw [next, next, hxy.1]
          refine ⟨hit?_eq_none_of_regapped hM.1 (.cons hxy hMN.forall₂_source) hgap, ?_⟩
          rw [hnext]
          exact ih hM.2 hMN
        | keyword src token => exact h.elim
      | keyword src token =>
        cases n with
        | free y => exact h.elim
        | keyword src' token' =>
          obtain ⟨rfl, hsrc, hinside, hMN⟩ := h
          exact ⟨hit?_eq_some_of_regapped hM.1 hsrc hinside hMN.forall₂_source, ih hM.2 hMN⟩

end Scan

/-! ### The width of gaps -/

namespace Mark

/-- A mark with one space for each gap of its lexemes. -/
def plain : Mark → Mark
  | free x => free x.plain
  | keyword source token => keyword (source.map Lexeme.plain) token

/-- Marks with one space for each gap, and one in front of the first lexeme. -/
def setOff : List Mark → List Mark
  | [] => []
  | free x :: M => free ⟨[' '], x.chunk⟩ :: M.map plain
  | keyword source token :: M => keyword (Lexeme.setOff source) token :: M.map plain

theorem flatMap_source_map_plain (M : List Mark) :
    (M.map plain).flatMap source = (M.flatMap source).map Lexeme.plain :=
  flatMap_source_map (fun m => by cases m <;> rfl) M

theorem flatMap_source_setOff {s : Scan} {M : List Mark} (h : s.Valid M) :
    (setOff M).flatMap source = Lexeme.setOff (M.flatMap source) := by
  cases M with
  | nil => rfl
  | cons m M =>
    cases m with
    | free x =>
      rw [setOff, List.flatMap_cons, flatMap_source_map_plain]
      rfl
    | keyword src token =>
      rw [setOff, List.flatMap_cons, List.flatMap_cons, flatMap_source_map_plain, source, source,
        Lexeme.setOff_append h.source_ne_nil]

end Mark

namespace Scan

theorem regapped_map_plain (s : Scan) (M : List Mark) : s.Regapped M (M.map Mark.plain) := by
  induction M generalizing s with
  | nil => trivial
  | cons m M ih =>
    cases m with
    | free x =>
      exact ⟨x.regapped_plain, fun _ hx hy => absurd (Lexeme.plain_gap_eq_nil_iff.2 hx) hy, ih _⟩
    | keyword src token =>
      exact ⟨rfl, Lexeme.forall₂_regapped_map_plain src, by rw [Lexeme.map_plain_map_plain], ih _⟩

theorem regapped_setOff (M : List Mark) : start.Regapped M (Mark.setOff M) := by
  cases M with
  | nil => trivial
  | cons m M =>
    cases m with
    | free x =>
      exact ⟨⟨rfl, fun _ hnil => by cases hnil⟩, fun _ _ _ => Or.inl rfl, regapped_map_plain _ M⟩
    | keyword src token =>
      exact ⟨rfl, Lexeme.forall₂_regapped_setOff src, Lexeme.bare_map_plain_setOff src,
        regapped_map_plain _ M⟩

/-- The width of gaps, and the first gap, do not matter to a scan. -/
theorem marks_setOff (L : List Lexeme) :
    start.marks (Lexeme.setOff L) = Mark.setOff (start.marks L) := by
  have hvalid := valid_marks start L
  have hsetOff := (hvalid.of_regapped (regapped_setOff _)).marks_eq
  rwa [Mark.flatMap_source_setOff hvalid, flatMap_source_marks] at hsetOff

end Scan

theorem Lexeme.bare_append_congr {L L' : List Lexeme} (h : bare L' = bare L) (M : List Lexeme) :
    bare (L' ++ M) = bare (L ++ M) := by
  have hlen := congrArg List.length h
  rw [length_bare, length_bare] at hlen
  cases L with
  | nil => rw [List.length_eq_zero_iff.1 hlen]
  | cons x L =>
    obtain ⟨y, L', rfl⟩ := List.exists_cons_of_length_eq_add_one hlen
    rw [bare_append (List.cons_ne_nil y L'), bare_append (List.cons_ne_nil x L), h]

namespace Mark

theorem tokensAfter_map_plain {run run' : List Lexeme}
    (h : Lexeme.bare (run'.map Lexeme.plain) = Lexeme.bare (run.map Lexeme.plain))
    (M : List Mark) : tokensAfter run' (M.map plain) = tokensAfter run M := by
  have hbody : Lexeme.body (run'.map Lexeme.plain) = Lexeme.body (run.map Lexeme.plain) := by
    rw [← Lexeme.body_bare, h, Lexeme.body_bare]
  induction M generalizing run run' with
  | nil =>
    rw [List.map_nil, tokensAfter, tokensAfter, hbody]
  | cons m M ih =>
    cases m with
    | free x =>
      have happend := Lexeme.bare_append_congr h [x.plain]
      rw [List.map_cons, plain, tokensAfter, tokensAfter]
      refine ih ?_ ?_
      · simpa using happend
      · have hbody := congrArg Lexeme.body happend
        rw [Lexeme.body_bare, Lexeme.body_bare] at hbody
        simpa using hbody
    | keyword src token =>
      rw [List.map_cons, plain, tokensAfter, tokensAfter, hbody, ih rfl rfl]

/-- The width of gaps, and the first gap, do not matter to tokens. -/
theorem tokensAfter_setOff (M : List Mark) : tokensAfter [] (setOff M) = tokensAfter [] M := by
  cases M with
  | nil => rfl
  | cons m M =>
    cases m with
    | free x =>
      have hbare : Lexeme.bare (([⟨[' '], x.chunk⟩] : List Lexeme).map Lexeme.plain) =
          Lexeme.bare ([x].map Lexeme.plain) := rfl
      exact tokensAfter_map_plain hbare M
    | keyword src token =>
      rw [setOff, tokensAfter, tokensAfter, tokensAfter_map_plain rfl]

end Mark

/-- The tokens of a text, read off its flow. -/
theorem Text.tokens_eq_tokensAfter_flow (t : Text) :
    t.tokens = Mark.tokensAfter [] (Scan.start.marks t.flow) := by
  rw [tokens_eq_tokensAfter_marks, flow, Scan.marks_setOff, Mark.tokensAfter_setOff]

/-- Texts that flow alike have the same tokens. -/
theorem Text.tokens_eq_of_flow_eq {t u : Text} (h : t.flow = u.flow) : t.tokens = u.tokens := by
  rw [tokens_eq_tokensAfter_flow, tokens_eq_tokensAfter_flow, h]

end SqlLayout
