import Mathlib.Data.List.Basic
import SqlLayout.Proofs.Scan.Gaps
import SqlLayout.Proofs.Scan.TopLevel

/-!
# Scans part by part

A hit looks ahead, so a scan of the first part of a text may depend on the second.  It does not if
the second part begins behind a gap with a word that no phrase goes on with: then no hit reaches
over the boundary.  If such a word begins a keyword token and stands at the top level, the tokens of
the text are those of its two parts.

## Main definitions

* `Lexeme.Detached` : a lexeme that no hit in front of it reaches.

## Main results

* `Lexeme.Detached.hit?_append` : hits in front of a detached lexeme do not depend on it.
* `Scan.Valid.append` : valid marks one behind the other.
* `Text.tokens_append` : the tokens of a text by its parts.
-/

namespace SqlLayout

/-! ### Phrases that go on -/

namespace Family

/-- No phrase goes on with the word that begins another one, unless that joins or compares. -/
theorem first_notMem_others {f g : Family} {p q : Phrase} (hp : p ∈ f.phrases)
    (hkind : p.kind ≠ .join ∧ p.kind ≠ .compare) (hq : q ∈ g.phrases) : p.first ∉ q.others := by
  have key : ∀ f g : Family, ∀ p ∈ f.phrases, p.kind ≠ .join ∧ p.kind ≠ .compare →
      ∀ q ∈ g.phrases, p.first ∉ q.others := by
    intro f g
    cases f <;> cases g <;> decide
  exact key f g p hp hkind q hq

end Family

namespace Lexeme

/-- A lexeme that no hit in front of it reaches: it stands behind a gap, and no phrase goes on with
it. -/
structure Detached (y : Lexeme) : Prop where
  gap : y.gap ≠ []
  others : ∀ f : Family, ∀ p ∈ f.phrases, ∀ k ∈ p.others, y.keyword? ≠ some k

theorem spells_append_cons {ks : List Keyword} {y : Lexeme} (hy : ∀ k ∈ ks, y.keyword? ≠ some k)
    (L N : List Lexeme) : spells ks (L ++ y :: N) = spells ks L := by
  induction ks generalizing L with
  | nil => rfl
  | cons k ks ih =>
    obtain ⟨hk, hks⟩ := List.forall_mem_cons.1 hy
    cases L with
    | nil => simp [spells_cons_cons, hk]
    | cons x L => rw [List.cons_append, spells_cons_cons, spells_cons_cons, ih hks]

theorem adjoins_append_cons {y : Lexeme} (hy : y.gap ≠ []) (s : Text) (L N : List Lexeme) :
    adjoins s (L ++ y :: N) = adjoins s L := by
  induction s generalizing L with
  | nil => rfl
  | cons c s ih =>
    cases L with
    | nil => simp [adjoins, hy]
    | cons x L => rw [List.cons_append, adjoins, adjoins, ih]

namespace Detached

variable {y : Lexeme}

theorem adjoins_append (hy : y.Detached) (s : Text) (x : Lexeme) (L N : List Lexeme) :
    adjoins s (bare (x :: (L ++ y :: N))) = adjoins s (bare (x :: L)) :=
  adjoins_append_cons hy.gap s (bare (x :: L)) N

theorem phraseRead?_append (hy : y.Detached) (f : Family) (x : Lexeme) (L N : List Lexeme) :
    f.phraseRead? (x :: (L ++ y :: N)) = f.phraseRead? (x :: L) := by
  have hspells : ∀ p ∈ f.phrases,
      spells p.keywords (x :: (L ++ y :: N)) = spells p.keywords (x :: L) := by
    intro p hp
    rw [Phrase.keywords, spells_cons_cons, spells_cons_cons, spells_append_cons (hy.others f p hp)]
  rw [Family.phraseRead?, Family.phraseRead?, ← List.head?_filterMap, ← List.head?_filterMap,
    List.filterMap_congr fun p hp => by rw [hspells p hp]]

/-- Hits in front of a detached lexeme do not depend on it, nor on what follows it. -/
theorem hit?_append (hy : y.Detached) (x : Lexeme) (L N : List Lexeme) :
    hit? (x :: (L ++ y :: N)) = hit? (x :: L) := by
  simp only [hit?, Family.read?, Family.symbolRead?, hy.adjoins_append, hy.phraseRead?_append]

end Detached

end Lexeme

/-! ### Marks one behind the other -/

namespace Scan

theorem hit?_append {y : Lexeme} (hy : y.Detached) (s : Scan) (x : Lexeme) (L N : List Lexeme) :
    s.hit? (x :: (L ++ y :: N)) = s.hit? (x :: L) := by
  have hsymbol : Lexeme.startsSymbol (x :: (L ++ y :: N)) = Lexeme.startsSymbol (x :: L) := by
    simp only [Lexeme.startsSymbol, hy.adjoins_append]
  rw [hit?, hit?, hsymbol, hy.hit?_append]

/-- Behind a gap at the top level a keyword token is found whatever stands in front of the gap. -/
theorem Valid.of_start {s : Scan} {y : Lexeme} {src : List Lexeme} {token : Token} {N : List Mark}
    (hN : start.Valid (.keyword (y :: src) token :: N)) (hy : y.gap ≠ []) (hd : s.depth = 0) :
    s.Valid (.keyword (y :: src) token :: N) := by
  refine ⟨?_, hN.2⟩
  rw [List.cons_append, hit?_of_tried hd (Or.inr (Or.inl hy))]
  exact (hit?_eq_some hN.1).2

/-- Valid marks one behind the other, if the second ones begin with a keyword token which stands at
the top level and detached. -/
theorem Valid.append {s : Scan} {M N : List Mark} {y : Lexeme} {src : List Lexeme} {token : Token}
    (hM : s.Valid M) (hdepth : Lexeme.depthAfter s.depth (M.flatMap Mark.source) = 0)
    (hy : y.Detached) (hN : start.Valid (.keyword (y :: src) token :: N)) :
    s.Valid (M ++ .keyword (y :: src) token :: N) := by
  induction M generalizing s with
  | nil => exact hN.of_start hy.gap hdepth
  | cons m M ih =>
    have hsource : (M ++ .keyword (y :: src) token :: N).flatMap Mark.source =
        M.flatMap Mark.source ++ y :: (src ++ N.flatMap Mark.source) :=
      List.flatMap_append
    cases m with
    | free x =>
      refine ⟨?_, ih hM.2 hdepth⟩
      have hnone := hM.1
      rwa [← hit?_append hy s x _ (src ++ N.flatMap Mark.source), ← hsource] at hnone
    | keyword src' token' =>
      obtain ⟨hd, hhit⟩ := hit?_eq_some hM.1
      have hbehind : Lexeme.depthAfter 0 (M.flatMap Mark.source) = 0 := by
        have hsrc := Lexeme.depthAfter_of_inKeyword (Lexeme.inKeyword_of_hit? hhit) s.depth
        rwa [List.flatMap_cons, Mark.source, Lexeme.depthAfter_append, hsrc, hd] at hdepth
      refine ⟨?_, ih hM.2 hbehind⟩
      obtain ⟨x, src', rfl⟩ := List.exists_cons_of_ne_nil hM.source_ne_nil
      have hsome := hM.1
      rwa [List.cons_append, ← hit?_append hy s x _ (src ++ N.flatMap Mark.source),
        List.append_assoc, ← hsource] at hsome

end Scan

namespace Mark

/-- The tokens on the two sides of a keyword token do not depend on each other. -/
theorem tokensAfter_append_keyword (run : List Lexeme) (M : List Mark) (src : List Lexeme)
    (token : Token) (N : List Mark) :
    tokensAfter run (M ++ keyword src token :: N) =
      tokensAfter run M ++ tokensAfter [] (keyword src token :: N) := by
  induction M generalizing run with
  | nil => rfl
  | cons m M ih =>
    cases m with
    | free x => exact ih (run ++ [x])
    | keyword src' token' => simp [tokensAfter, ih]

/-- Free lexemes make the first token. -/
theorem kind_of_head?_tokensAfter {run : List Lexeme} {M : List Mark}
    (h : ∀ x ∈ run ++ M.flatMap source, x.chunk.Sound) (hne : run ≠ []) :
    ∀ t ∈ (tokensAfter run M).head?, t.kind = .str := by
  have hfree {run : List Lexeme} (hrun : ∀ x ∈ run, x.chunk.Sound) (hne : run ≠ [])
      (rest : List Token) :
      ∀ t ∈ (Text.freeTokens (Lexeme.body (run.map Lexeme.plain)) ++ rest).head?,
        t.kind = .str := by
    rw [Lexeme.freeTokens_body hrun hne]
    rintro t ⟨⟩
    rfl
  induction M generalizing run with
  | nil =>
    rw [List.flatMap_nil, List.append_nil] at h
    have hhead := hfree h hne []
    rwa [List.append_nil] at hhead
  | cons m M ih =>
    cases m with
    | free x =>
      rw [append_flatMap_source_free] at h
      exact ih h (by simp)
    | keyword src token => exact hfree (fun x hx => h x (List.mem_append_left _ hx)) hne _

/-- A first token that is not free text is the first mark. -/
theorem exists_of_head?_tokensAfter {M : List Mark} {t : Token}
    (h : ∀ x ∈ M.flatMap source, x.chunk.Sound) (ht : (tokensAfter [] M).head? = some t)
    (hkind : t.kind ≠ .str) : ∃ src N, M = keyword src t :: N := by
  cases M with
  | nil => cases ht
  | cons m M =>
    cases m with
    | free x =>
      have hrun : ∀ y ∈ [x] ++ M.flatMap source, y.chunk.Sound := h
      exact absurd (kind_of_head?_tokensAfter hrun (List.cons_ne_nil x []) t ht) hkind
    | keyword src token =>
      obtain rfl : token = t := Option.some.inj ht
      exact ⟨src, M, rfl⟩

end Mark

/-! ### Tokens one behind the other -/

namespace Lexeme

theorem gap_of_head?_setOff {L : List Lexeme} : ∀ y ∈ (setOff L).head?, y.gap = [' '] := by
  cases L with
  | nil => nofun
  | cons x L =>
    rintro y ⟨⟩
    rfl

/-- The first lexeme of a keyword token behind a gap is detached, unless the token joins or
compares. -/
theorem detached_of_hit? {y : Lexeme} {L : List Lexeme} {n : Nat} {token : Token}
    (h : hit? (y :: L) = some (n, token)) (hy : y.gap ≠ [])
    (hkind : token.kind ≠ .join ∧ token.kind ≠ .compare) : y.Detached := by
  rcases exists_of_hit? h with ⟨s, -, -, -, rfl⟩ | ⟨f, p, hp, hspells, -, rfl⟩
  · exact absurd rfl hkind.2
  · refine ⟨hy, fun g q hq k hk hkeyword => ?_⟩
    rw [Phrase.keywords, spells_cons_cons, hkeyword, Bool.and_eq_true, beq_iff_eq,
      Option.some.injEq] at hspells
    rw [hspells.1] at hk
    exact Family.first_notMem_others hp hkind hq hk

end Lexeme

/-- The tokens of a text by its parts: the first one is complete, and the second one begins behind a
gap with a keyword token that neither joins nor compares. -/
theorem Text.tokens_append {t gap u : Text} {first : Token} (ht : t.Complete) (hne : gap ≠ [])
    (hgap : gap.IsBlank) (hu : u.tokens.head? = some first)
    (hkind : first.kind ≠ .str ∧ first.kind ≠ .join ∧ first.kind ≠ .compare) :
    (t ++ gap ++ u).tokens = t.tokens ++ u.tokens := by
  -- the flow of the text is that of its parts
  have hflow : (t ++ gap ++ u).flow = t.flow ++ u.flow := by
    obtain ⟨c, gap, rfl⟩ := List.exists_cons_of_ne_nil hne
    obtain ⟨hc, hgap⟩ := List.forall_mem_cons.1 hgap
    rw [List.append_assoc, List.cons_append, ht.closed.flow_append hc, flow_gap_append hgap]
  have hM := Scan.valid_marks .start t.flow
  have hflat := Scan.flatMap_source_marks .start t.flow
  have hN := Scan.valid_marks .start u.flow
  have hflat' := Scan.flatMap_source_marks .start u.flow
  -- the second part begins with a keyword token
  rw [tokens_eq_tokensAfter_flow] at hu
  obtain ⟨src, N, hmarks⟩ : ∃ src N, Scan.start.marks u.flow = .keyword src first :: N := by
    refine Mark.exists_of_head?_tokensAfter (fun x hx => ?_) hu hkind.1
    rw [hflat'] at hx
    exact u.tight_toLexemes.tight_setOff.sound x hx
  rw [hmarks] at hN hflat'
  obtain ⟨y, src, rfl⟩ := List.exists_cons_of_ne_nil hN.source_ne_nil
  have hy : y.Detached := by
    refine Lexeme.detached_of_hit? (Scan.hit?_eq_some hN.1).2 ?_ hkind.2
    rw [Lexeme.gap_of_head?_setOff y (congrArg List.head? hflat').symm]
    exact List.cons_ne_nil _ _
  have hvalid := hM.append (by rw [hflat]; exact ht.depthAfter_flow) hy hN
  have hall := hvalid.marks_eq
  rw [List.flatMap_append, hflat, hflat', ← hflow] at hall
  rw [tokens_eq_tokensAfter_flow, hall, Mark.tokensAfter_append_keyword,
    tokens_eq_tokensAfter_flow, tokens_eq_tokensAfter_flow, hmarks]

end SqlLayout
