import SqlLayout.Proofs.Scan.Coverage
import SqlLayout.Proofs.Text.WordRuns

/-!
# Keyword tokens are sound

A scan forgets where it stands at the end of each word and each keyword token.  Still it agrees with
one reader of quotes and parentheses for the whole text: keyword tokens stand outside of all quoted
regions and groups, as whole words, and every quoted region and every group is part of one token of
free text.

## Main definitions

* `Text.IsQuoted`, `Text.IsGroup` : where quoted regions and groups in parentheses stand in a text.
* `Span.IsApart` : a span outside of quotes and parentheses, which takes whole words.
* `Span.Holds` : a part of a text lies in a span.
* `Text.HoldsAsFreeText` : a part of a text lies in the span of one token of free text.

## Main results

* `Span.Tile.exists_holds` : a part of a text that is never left lies in one span.
* `Text.keyword_tokens_sound` : keyword tokens stand apart, and free text holds regions and groups.
-/

namespace SqlLayout

/-! ### Regions and groups -/

namespace Nesting

/-- A parenthesis is open in front of every character of a text. -/
def StaysDeep : Nesting → Text → Prop
  | _, [] => True
  | n, c :: t => n.depth ≠ 0 ∧ (n.next c).StaysDeep t

/-- A quoted region or a parenthesis is open in front of every character of a text. -/
def StaysIn : Nesting → Text → Prop
  | _, [] => True
  | n, c :: t => n.isTop = false ∧ (n.next c).StaysIn t

end Nesting

namespace Text

/-- A quoted region between two parts of a text: it opens outside of quotes, and it goes on to the
quote that closes it or to the end of the text. -/
structure IsQuoted (before region after : Text) : Prop where
  opens : Quoting.outside.after before = .outside
  goesOn : ∃ (q : Quote) (body : Text), region = q.char :: body ∧ (Quoting.inside q).StaysOpen body
  ends : Quoting.outside.after (before ++ region) = .outside ∨ after = []

/-- A group in parentheses between two parts of a text: it opens at the top level, and it goes on to
the parenthesis that closes it or to the end of the text. -/
structure IsGroup (before region after : Text) : Prop where
  opens : (Nesting.start.after before).isTop = true
  goesOn : ∃ body : Text, region = '(' :: body ∧ (Nesting.start.next '(').StaysDeep body
  ends : (Nesting.start.after (before ++ region)).depth = 0 ∨ after = []

end Text

namespace Span

/-- A part of a text lies in a span, where `before` stands in front of the part. -/
def Holds (sp : Span) (before part : Text) : Prop :=
  ∃ x y : Text, before = sp.before ++ x ∧ sp.source = x ++ (part ++ y)

/-- A span stands outside of quotes and parentheses and has none of them, and the span of a phrase
takes whole words. -/
structure IsApart (sp : Span) (t : Text) : Prop where
  isTop_before : (Nesting.start.after sp.before).isTop = true
  isTop_behind : (Nesting.start.after (sp.before ++ sp.source)).isTop = true
  plain : ∀ c ∈ sp.source, isQuote c = false ∧ c ≠ '(' ∧ c ≠ ')'
  wholeWords : ∃ rest, t = sp.before ++ (sp.source ++ rest) ∧
    ((∃ f : Family, ∃ p ∈ f.phrases, sp.token.text = p.text) →
      (∀ c ∈ sp.before.getLast?, isWordChar c = false) ∧ ∀ c ∈ rest.head?, isWordChar c = false)

end Span

/-! ### Blank characters leave nothing -/

namespace Nesting

theorem next_of_isBlank {c : Char} (h : isBlank c = true) (n : Nesting) :
    (n.next c).depth = n.depth ∧ (n.next c).quoting.isOpen = n.quoting.isOpen := by
  obtain ⟨quoting, depth⟩ := n
  have hquote := isQuote_of_isBlank h
  cases quoting with
  | outside =>
    rw [next_of_not_isQuote hquote, depthAfter_of_isBlank h]
    exact ⟨rfl, rfl⟩
  | inside q =>
    have hc : c ≠ q.char := by
      rintro rfl
      rw [isBlank_quote] at h
      cases h
    refine ⟨rfl, ?_⟩
    simp only [next, Quoting.next, hc, if_false]
    split <;> rfl
  | escaped q => exact ⟨rfl, rfl⟩

/-- Behind blank characters the same is open as in front of them, but for the state of an escape. -/
theorem after_isBlank {gap : Text} (h : gap.IsBlank) (n : Nesting) :
    (n.after gap).depth = n.depth ∧ (n.after gap).quoting.isOpen = n.quoting.isOpen := by
  induction gap generalizing n with
  | nil => exact ⟨rfl, rfl⟩
  | cons c gap ih =>
    obtain ⟨hdepth, hopen⟩ := next_of_isBlank (h c List.mem_cons_self) n
    obtain ⟨hdepth', hopen'⟩ := ih (fun b hb => h b (List.mem_cons_of_mem c hb)) (n.next c)
    exact ⟨hdepth'.trans hdepth, hopen'.trans hopen⟩

theorem isTop_after_isBlank {gap : Text} (h : gap.IsBlank) (n : Nesting) :
    (n.after gap).isTop = n.isTop := by
  obtain ⟨hdepth, hopen⟩ := after_isBlank h n
  rw [isTop, isTop, hdepth, hopen]

theorem StaysIn.right {n : Nesting} {t u : Text} (h : n.StaysIn (t ++ u)) :
    (n.after t).StaysIn u := by
  induction t generalizing n with
  | nil => exact h
  | cons c t ih => exact ih h.2

theorem StaysDeep.right {n : Nesting} {t u : Text} (h : n.StaysDeep (t ++ u)) :
    (n.after t).StaysDeep u := by
  induction t generalizing n with
  | nil => exact h
  | cons c t ih => exact ih h.2

theorem StaysDeep.staysIn {n : Nesting} {t : Text} (h : n.StaysDeep t) : n.StaysIn t := by
  induction t generalizing n with
  | nil => trivial
  | cons c t ih =>
    refine ⟨?_, ih h.2⟩
    simp [isTop, h.1]

theorem staysIn_of_staysOpen {n : Nesting} {t : Text} (h : n.quoting.StaysOpen t) :
    n.StaysIn t := by
  induction t generalizing n with
  | nil => trivial
  | cons c t ih =>
    refine ⟨?_, ih h.2⟩
    simp [isTop, h.1]

end Nesting

theorem Quoting.StaysOpen.right {s : Quoting} {t u : Text} (h : s.StaysOpen (t ++ u)) :
    (s.after t).StaysOpen u := by
  induction t generalizing s with
  | nil => exact h
  | cons c t ih => exact ih h.2

/-! ### What is never left lies in one span -/

/-- Where a character that is not blank stands in a text that begins with a gap and a source: behind
the source, or in it. -/
theorem Text.append_eq_append_cons {gap source rest u t : Text} {c : Char} (hgap : gap.IsBlank)
    (hc : isBlank c = false) (h : gap ++ (source ++ rest) = u ++ c :: t) :
    (∃ v, u = gap ++ source ++ v ∧ rest = v ++ c :: t) ∨
      ∃ x y, u = gap ++ x ∧ source = x ++ c :: y ∧ t = y ++ rest := by
  rw [← List.append_assoc] at h
  rcases List.append_eq_append_iff.1 h with ⟨v, rfl, hv⟩ | ⟨v, hsource, hv⟩
  · exact Or.inl ⟨v, rfl, hv⟩
  · cases v with
    | nil =>
      rw [List.append_nil] at hsource
      exact Or.inl ⟨[], by rw [List.append_nil, hsource], hv.symm⟩
    | cons d y =>
      obtain ⟨rfl, rfl⟩ := List.cons.inj hv
      rcases List.append_eq_append_iff.1 hsource with ⟨x, rfl, hx⟩ | ⟨x, hx, hbehind⟩
      · exact Or.inr ⟨x, y, rfl, hx, rfl⟩
      · cases x with
        | nil => exact Or.inr ⟨[], y, by simpa using hx.symm, by simpa using hbehind.symm, rfl⟩
        | cons b x =>
          obtain ⟨rfl, -⟩ := List.cons.inj hbehind
          have hblank : isBlank c = true := hgap c (by simp [hx])
          rw [hc] at hblank
          cases hblank

/-- A part of a text behind a span that does not reach the top level is blank, and the text ends
with it: the next span would begin at the top level. -/
theorem Span.Tile.isBlank_of_staysIn {before rest : Text} {spans : List Span}
    (h : Span.Tile before spans rest)
    (htop : ∀ sp ∈ spans, (Nesting.start.after sp.before).isTop = true) {w after : Text}
    (hrest : rest = w ++ after) (hw : (Nesting.start.after before).StaysIn w) : w.IsBlank := by
  cases spans with
  | nil => exact fun b hb => h b (hrest ▸ List.mem_append_left after hb)
  | cons sp spans =>
    obtain ⟨gap, -, hgap, -, -, hbefore, -⟩ := h
    cases w with
    | nil => exact nofun
    | cons b w =>
      have hnext := htop sp List.mem_cons_self
      rw [hbefore, Nesting.after_append, Nesting.isTop_after_isBlank hgap, hw.1] at hnext
      cases hnext

/-- A part of a text in which the top level is not reached before its end lies in one span, but for
blank characters at the end of the text.  Every span begins at the top level. -/
theorem Span.Tile.exists_holds {before rest : Text} {spans : List Span}
    (h : Span.Tile before spans rest)
    (htop : ∀ sp ∈ spans, (Nesting.start.after sp.before).isTop = true) {u body after : Text}
    {c : Char} (hrest : rest = u ++ (c :: (body ++ after))) (hc : isBlank c = false)
    (hbody : (Nesting.start.after (before ++ u ++ [c])).StaysIn body) :
    ∃ inner outer, body = inner ++ outer ∧ outer.IsBlank ∧
      ∃ sp ∈ spans, sp.Holds (before ++ u) (c :: inner) := by
  induction spans generalizing before rest u with
  | nil =>
    have hblank : isBlank c = true := h c (by simp [hrest])
    rw [hc] at hblank
    cases hblank
  | cons sp spans ih =>
    obtain ⟨gap, rest', hgap, -, heq, hbefore, htile⟩ := h
    have htop' : ∀ sp ∈ spans, (Nesting.start.after sp.before).isTop = true :=
      fun sp' hsp => htop sp' (List.mem_cons_of_mem sp hsp)
    rcases Text.append_eq_append_cons hgap hc (heq.symm.trans hrest) with
      ⟨v, rfl, hv⟩ | ⟨x, y, rfl, hsource, hy⟩
    · -- the part begins behind the span
      have hfront : before ++ (gap ++ sp.source ++ v) = sp.before ++ sp.source ++ v := by
        rw [hbefore]
        simp only [List.append_assoc]
      rw [hfront] at hbody ⊢
      obtain ⟨inner, outer, hsplit, houter, sp', hsp', hholds⟩ := ih htile htop' hv hbody
      exact ⟨inner, outer, hsplit, houter, sp', List.mem_cons_of_mem sp hsp', hholds⟩
    · -- the part begins in the span
      have hfront : before ++ (gap ++ x) = sp.before ++ x := by
        rw [hbefore, List.append_assoc]
      rw [hfront] at hbody ⊢
      rcases List.append_eq_append_iff.1 hy with ⟨w, rfl, -⟩ | ⟨w, rfl, hw⟩
      · -- and ends in it
        exact ⟨body, [], (List.append_nil body).symm, nofun, sp, List.mem_cons_self, x, w, rfl,
          hsource⟩
      · -- and goes on behind it
        have hbehind : sp.before ++ x ++ [c] ++ y = sp.before ++ sp.source := by
          rw [hsource]
          simp only [List.append_assoc, List.singleton_append]
        have hin := hbody.right
        rw [← Nesting.after_append, hbehind] at hin
        have hblank := htile.isBlank_of_staysIn htop' hw hin
        refine ⟨y, w, rfl, hblank, sp, List.mem_cons_self, x, [], rfl, ?_⟩
        rw [hsource, List.append_nil]

/-! ### Keyword tokens stand apart -/

namespace Lexeme

/-- No word goes on behind words that are lexemes. -/
theorem Tight.continuesWord_right {tail : Text} {L M : List Lexeme} (h : Tight tail (L ++ M))
    (hne : L ≠ []) (hword : ∀ x ∈ L, x.chunk.isWord = true) :
    Keyword.continuesWord (Text.ofLexemes M tail) = false := by
  induction L with
  | nil => exact absurd rfl hne
  | cons x L ih =>
    cases L with
    | nil => exact h.2.2.2.1.continuesWord h.2.2.2.2 (hword x List.mem_cons_self)
    | cons y L =>
      exact ih h.2.2.2.2 (List.cons_ne_nil y L) fun z hz => hword z (List.mem_cons_of_mem x hz)

theorem text_ne_of_mem_symbols {s : Text} (hs : s ∈ Family.comparison.symbols) {f : Family}
    {p : Phrase} (hp : p ∈ f.phrases) : s ≠ p.text := by
  have key : ∀ f : Family, ∀ p ∈ f.phrases, ∀ s ∈ Family.comparison.symbols, s ≠ p.text := by
    intro f
    cases f <;> decide
  exact key f p hp s hs

/-- What the hit of a phrase takes are words. -/
theorem isWord_of_hit?_phrase {L rest : List Lexeme} {f : Family} {p : Phrase} {token : Token}
    (hp : p ∈ f.phrases) (htext : token.text = p.text)
    (h : hit? (L ++ rest) = some (L.length, token)) : ∀ x ∈ L, x.chunk.isWord = true := by
  rcases exists_of_hit?_append h with ⟨s, hs, -, -, rfl⟩ | ⟨f', p', -, hspells, hlen, -⟩
  · exact absurd htext (text_ne_of_mem_symbols hs hp)
  · exact isWord_of_spells hspells hlen

/-- No quote and no parenthesis occurs in lexemes of keyword tokens, nor in their gaps. -/
theorem Tight.forall_mem_body {tail : Text} {L : List Lexeme} (h : Tight tail L)
    (hkeyword : ∀ x ∈ L, x.chunk.InKeyword) :
    ∀ c ∈ body L, isQuote c = false ∧ c ≠ '(' ∧ c ≠ ')' := by
  have hgap : ∀ (gap : Text), gap.IsBlank → ∀ c ∈ gap,
      isQuote c = false ∧ c ≠ '(' ∧ c ≠ ')' := by
    intro gap hblank c hc
    have hc := hblank c hc
    refine ⟨isQuote_of_isBlank hc, ?_, ?_⟩ <;>
    · rintro rfl
      exact absurd hc (by decide)
  induction L with
  | nil => exact nofun
  | cons x L ih =>
    intro c hc
    have ih := ih h.2.2.2.2 fun y hy => hkeyword y (List.mem_cons_of_mem x hy)
    rcases List.mem_append.1 hc with hc | hc
    · exact (hkeyword x List.mem_cons_self).forall_mem_text h.2.1 c hc
    · rw [ofLexemes_eq_firstGap_append, List.append_nil, List.mem_append] at hc
      rcases hc with hc | hc
      · cases L with
        | nil => cases hc
        | cons y L => exact hgap _ h.2.2.2.2.1 c hc
      · exact ih c hc

end Lexeme

/-- Keyword tokens stand outside of quotes and parentheses, as whole words. -/
theorem Text.isApart_of_mem_spans {t : Text} {sp : Span} (h : sp ∈ t.spans)
    (hkind : sp.token.kind ≠ .str) : sp.IsApart t := by
  have htop := nesting_before_span h
  obtain ⟨L₁, L, L₂, heq, hne, -, hsp, hread⟩ := exists_of_mem_spans h
  have ht := t.tight_toLexemes
  rw [heq, List.append_assoc] at ht
  have hL : Lexeme.Tight [] L := ht.right.left
  have hhit : Lexeme.hit? (L ++ L₂) = some (L.length, sp.token) :=
    hread.resolve_left fun htoken => hkind (by rw [htoken]; rfl)
  have hkeyword := Lexeme.inKeyword_of_hit? hhit
  have hclosed := hL.closed_of_hit? hhit
  obtain ⟨x, ws, rfl⟩ := List.exists_cons_of_ne_nil hne
  have hbefore : sp.before = ofLexemes L₁ [] ++ x.gap := by rw [hsp]; rfl
  have hsource : sp.source = Lexeme.body (x :: ws) := by
    rw [hsp]
    exact hL.trimEnd_body (hL.finished hclosed)
  have hbehind : sp.before ++ sp.source = ofLexemes (L₁ ++ (x :: ws)) [] := by
    rw [hbefore, hsource, ofLexemes_append, Lexeme.ofLexemes_eq_gap_append_body]
    simp
  refine ⟨?_, ?_, ?_, ofLexemes L₂ t.lastGap, ?_, fun ⟨f, p, hp, htext⟩ => ⟨?_, ?_⟩⟩
  · rw [htop]
    rfl
  · have hdepth := hL.nesting_after hclosed 0
    have hgap : (⟨.outside, 0⟩ : Nesting).after (Lexeme.body (x :: ws)) = .start := by
      rw [Lexeme.ofLexemes_eq_gap_append_body, List.append_nil, Nesting.after_append,
        Nesting.after_of_isBlank hL.1, Lexeme.depthAfter_of_inKeyword hkeyword] at hdepth
      exact hdepth
    rw [Nesting.after_append, htop, hsource]
    exact congrArg Nesting.isTop hgap
  · rw [hsource]
    exact hL.forall_mem_body hkeyword
  · rw [← List.append_assoc, hbehind, ← ofLexemes_append, ← heq, ofLexemes_toLexemes]
  · rw [hbefore]
    exact Lexeme.Tight.getLast?_left ht
      (Lexeme.isWord_of_hit?_phrase hp htext hhit x List.mem_cons_self)
  · have hbehind := ht.right.continuesWord_right hne (Lexeme.isWord_of_hit?_phrase hp htext hhit)
    intro c hc
    cases hrest : ofLexemes L₂ t.lastGap with
    | nil =>
      rw [hrest] at hc
      cases hc
    | cons d rest =>
      rw [hrest] at hc hbehind
      rwa [← Option.some.inj hc]

/-! ### Free text holds regions and groups -/

namespace Text

/-- A part of a text lies in the span of one token of free text.  If it is open at the end of the
text, blank characters at its end need not. -/
def HoldsAsFreeText (t before part after : Text) (isOpen : Prop) : Prop :=
  ∃ inner outer : Text, part = inner ++ outer ∧ outer.IsBlank ∧
    (outer = [] ∨ after = [] ∧ isOpen) ∧
    ∃ sp ∈ t.spans, sp.token.kind = .str ∧ sp.Holds before inner

theorem exists_free_span {t before body after : Text} {c : Char}
    (ht : t = before ++ (c :: (body ++ after)))
    (hc : isBlank c = false ∧ ¬ (isQuote c = false ∧ c ≠ '(' ∧ c ≠ ')'))
    (hbody : (Nesting.start.after (before ++ [c])).StaysIn body) :
    ∃ inner outer, body = inner ++ outer ∧ outer.IsBlank ∧
      ∃ sp ∈ t.spans, sp.token.kind = .str ∧ sp.Holds before (c :: inner) := by
  have htop : ∀ sp ∈ t.spans, (Nesting.start.after sp.before).isTop = true := fun sp hsp => by
    rw [nesting_before_span hsp]
    rfl
  obtain ⟨inner, outer, rfl, houter, sp, hsp, hholds⟩ :=
    t.tile_spans.exists_holds htop ht hc.1 hbody
  refine ⟨inner, outer, rfl, houter, sp, hsp, ?_, hholds⟩
  by_contra hkind
  obtain ⟨x, y, -, hsource⟩ := hholds
  exact hc.2 ((isApart_of_mem_spans hsp hkind).plain c (by simp [hsource]))

/-- A quoted region lies in the span of one token of free text. -/
theorem IsQuoted.holdsAsFreeText {t before region after : Text}
    (h : IsQuoted before region after) (ht : t = before ++ (region ++ after)) :
    t.HoldsAsFreeText before region after
      (Quoting.outside.after (before ++ region) ≠ .outside) := by
  obtain ⟨hopens, ⟨q, body, rfl, hgoesOn⟩, hends⟩ := h
  have hquoting : (Nesting.start.after (before ++ [q.char])).quoting = .inside q := by
    have hstart : Nesting.start.quoting = .outside := rfl
    rw [Nesting.quoting_after, hstart, Quoting.after_append, hopens, Quoting.after_cons,
      Quoting.next_outside_quote, Quoting.after_nil]
  have hquote : isQuote q.char = true := isQuote_eq_true_iff.2 ⟨q, rfl⟩
  obtain ⟨inner, outer, rfl, houter, hspan⟩ := exists_free_span ht
    ⟨isBlank_quote q, by simp [hquote]⟩ (Nesting.staysIn_of_staysOpen (hquoting ▸ hgoesOn))
  refine ⟨q.char :: inner, outer, rfl, houter, ?_, hspan⟩
  cases outer with
  | nil => exact Or.inl rfl
  | cons b outer =>
    have hopen : Quoting.outside.after (before ++ q.char :: (inner ++ b :: outer)) ≠ .outside := by
      intro hout
      have hin : ((Quoting.inside q).after inner).isOpen = true := hgoesOn.right.1
      have hblank := (Nesting.after_isBlank houter ⟨(Quoting.inside q).after inner, 0⟩).2
      rw [Nesting.quoting_after] at hblank
      rw [Quoting.after_append, hopens, Quoting.after_cons, Quoting.next_outside_quote,
        Quoting.after_append] at hout
      rw [hin, hout] at hblank
      cases hblank
    exact Or.inr ⟨hends.resolve_left hopen, hopen⟩

/-- A group in parentheses lies in the span of one token of free text. -/
theorem IsGroup.holdsAsFreeText {t before region after : Text}
    (h : IsGroup before region after) (ht : t = before ++ (region ++ after)) :
    t.HoldsAsFreeText before region after
      ((Nesting.start.after (before ++ region)).depth ≠ 0) := by
  obtain ⟨hopens, ⟨body, rfl, hgoesOn⟩, hends⟩ := h
  have hbefore : Nesting.start.after before = .start := Nesting.isTop_iff.1 hopens
  have hnesting : Nesting.start.after (before ++ ['(']) = Nesting.start.next '(' := by
    rw [Nesting.after_append, hbefore]
    rfl
  obtain ⟨inner, outer, rfl, houter, hspan⟩ := exists_free_span ht
    ⟨by decide, by decide⟩ (hnesting ▸ hgoesOn.staysIn)
  refine ⟨'(' :: inner, outer, rfl, houter, ?_, hspan⟩
  cases outer with
  | nil => exact Or.inl rfl
  | cons b outer =>
    have hopen : (Nesting.start.after (before ++ '(' :: (inner ++ b :: outer))).depth ≠ 0 := by
      have hin : ((Nesting.start.next '(').after inner).depth ≠ 0 := hgoesOn.right.1
      rw [Nesting.after_append, hbefore, Nesting.after_cons, Nesting.after_append,
        (Nesting.after_isBlank houter _).1]
      exact hin
    exact Or.inr ⟨hends.resolve_left hopen, hopen⟩

/-- Keyword tokens are sound: they stand at the top level of one reader of quotes and parentheses
for the whole text and take whole words, and every quoted region and every group at the top level
is part of one token of free text. -/
theorem keyword_tokens_sound (t : Text) :
    (Span.Tile [] t.spans t ∧ t.spans.map Span.token = t.tokens) ∧
    (∀ sp ∈ t.spans, sp.token.kind ≠ .str → sp.IsApart t) ∧
    (∀ before region after, t = before ++ (region ++ after) → IsQuoted before region after →
      t.HoldsAsFreeText before region after
        (Quoting.outside.after (before ++ region) ≠ .outside)) ∧
    (∀ before region after, t = before ++ (region ++ after) → IsGroup before region after →
      t.HoldsAsFreeText before region after
        ((Nesting.start.after (before ++ region)).depth ≠ 0)) :=
  ⟨⟨t.tile_spans, t.map_token_spans⟩, fun _ hsp hkind => isApart_of_mem_spans hsp hkind,
    fun _ _ _ ht h => h.holdsAsFreeText ht, fun _ _ _ ht h => h.holdsAsFreeText ht⟩

/-- A group that is left open, with a quoted region in it that is left open too, behind a keyword
token. -/
theorem keyword_tokens_sound_open_group :
    (∃ sp ∈ spans "x LIKE ('a ) ".toList,
      sp.token.kind ≠ .str ∧ sp.IsApart "x LIKE ('a ) ".toList) ∧
    (IsQuoted "x LIKE (".toList "'a ) ".toList [] ∧
      HoldsAsFreeText "x LIKE ('a ) ".toList "x LIKE (".toList "'a ) ".toList []
        (Quoting.outside.after "x LIKE ('a ) ".toList ≠ .outside)) ∧
    IsGroup "x LIKE ".toList "('a ) ".toList [] ∧
      HoldsAsFreeText "x LIKE ('a ) ".toList "x LIKE ".toList "('a ) ".toList []
        ((Nesting.start.after "x LIKE ('a ) ".toList).depth ≠ 0) := by
  obtain ⟨-, hkeyword, hquoted, hgroup⟩ := keyword_tokens_sound "x LIKE ('a ) ".toList
  have hspan : (⟨"x ".toList, "LIKE".toList, ⟨.compare, "LIKE".toList⟩⟩ : Span) ∈
      spans "x LIKE ('a ) ".toList := by
    decide +kernel
  have hregion : IsQuoted "x LIKE (".toList "'a ) ".toList [] :=
    ⟨rfl, ⟨.single, "a ) ".toList, rfl, rfl, rfl, rfl, rfl, trivial⟩, Or.inr rfl⟩
  have hopen : IsGroup "x LIKE ".toList "('a ) ".toList [] :=
    ⟨rfl, ⟨"'a ) ".toList, rfl, nofun, nofun, nofun, nofun, nofun, trivial⟩, Or.inr rfl⟩
  exact ⟨⟨_, hspan, nofun, hkeyword _ hspan nofun⟩, ⟨hregion, hquoted _ _ _ rfl hregion⟩,
    hopen, hgroup _ _ _ rfl hopen⟩

end Text

end SqlLayout
