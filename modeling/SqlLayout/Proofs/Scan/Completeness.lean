import SqlLayout.Proofs.Scan.Opacity

/-!
# Keyword tokens are complete

A scan looks for a hit in front of lexemes only.  Read by characters, these are all places where a
keyword token could begin: in front of the first character of free text, behind a blank character at
the top level, behind the end of a quoted region or a group, and wherever a comparison symbol
stands at the top level.  So free text holds no keyword token that has been missed.

## Main definitions

* `Text.EndsBreak` : a text behind which a keyword token may begin that is no symbol.
* `Span.IsExhausted` : no keyword token has been missed in a span.
* `Scan.after` : the scan behind free lexemes.

## Main results

* `Chunk.Sound.inside` : no keyword token can begin inside a chunk.
* `Lexeme.Tight.exhausted` : where a scan finds nothing, no keyword token begins in a lexeme.
* `Text.keyword_tokens_complete` : no keyword token has been missed in free text.
-/

namespace SqlLayout

/-- A text ends in a blank character at the top level, or in a character that closes a quoted region
or a group there. -/
def Text.EndsBreak (t : Text) : Prop :=
  ∃ (u : Text) (d : Char), t = u ++ [d] ∧
    ((Nesting.start.after u).isTop = true ∧ isBlank d = true ∨
      (Nesting.start.after u).closes d = true)

/-- No keyword token has been missed in a span, where `rest` stands behind it: nothing is found at
its first character, nor behind a break in it, and no comparison symbol stands at its top level. -/
structure Span.IsExhausted (sp : Span) (rest : Text) : Prop where
  atStart : Text.hasHit (sp.source ++ rest) = false
  atBreak : ∀ (x : Text) (c : Char) (y : Text), sp.source = x ++ c :: y →
    Text.EndsBreak (sp.before ++ x) → Text.hasHit (c :: (y ++ rest)) = false
  noSymbol : ∀ (x : Text) (c : Char) (y : Text), sp.source = x ++ c :: y →
    (Nesting.start.after (sp.before ++ x)).isTop = true →
    Text.startsSymbol (c :: (y ++ rest)) = false

/-! ### Scans of free lexemes -/

namespace Scan

/-- The scan behind free lexemes. -/
def after (s : Scan) (L : List Lexeme) : Scan := L.foldl next s

@[simp] theorem after_nil (s : Scan) : s.after [] = s := rfl

@[simp] theorem after_cons (s : Scan) (x : Lexeme) (L : List Lexeme) :
    s.after (x :: L) = (s.next x).after L := rfl

theorem after_append (s : Scan) (L M : List Lexeme) : s.after (L ++ M) = (s.after L).after M :=
  List.foldl_append

theorem depth_after (s : Scan) (L : List Lexeme) :
    (s.after L).depth = Lexeme.depthAfter s.depth L := by
  induction L generalizing s with
  | nil => rfl
  | cons x L ih => exact ih (s.next x)

theorem ready_after_concat (s : Scan) (L : List Lexeme) (x : Lexeme) :
    (s.after (L ++ [x])).ready = x.chunk.closes (Lexeme.depthAfter s.depth L) := by
  rw [after_append, ← depth_after]
  rfl

theorem Valid.behind_free {s : Scan} {run : List Lexeme} {M : List Mark}
    (h : s.Valid (run.map .free ++ M)) : (s.after run).Valid M := by
  induction run generalizing s with
  | nil => exact h
  | cons x run ih => exact ih h.2

/-- Nothing is found in front of a free lexeme. -/
theorem Valid.hit?_eq_none {s : Scan} {A B : List Lexeme} {z : Lexeme} {M : List Mark}
    (h : s.Valid ((A ++ z :: B).map .free ++ M)) :
    (s.after A).hit? (z :: (B ++ M.flatMap Mark.source)) = none := by
  rw [List.map_append, List.append_assoc, List.map_cons, List.cons_append] at h
  have hz := h.behind_free.1
  rwa [List.flatMap_append, Mark.flatMap_source_map_free] at hz

end Scan

/-! ### The spans of free text -/

/-- The lexemes of a span of free text are free, and what stands behind them is marked in a valid
way too. -/
theorem Mark.exists_valid_of_mem_spansAfter {M : List Mark} {before run : List Lexeme}
    (hM : Scan.start.Valid (run.map free ++ M)) {sp : Span}
    (h : sp ∈ spansAfter (Text.ofLexemes before []) run M) (hkind : sp.token.kind = .str) :
    ∃ L₁ L M', before ++ run ++ M.flatMap source = L₁ ++ (L ++ M'.flatMap source) ∧
      Scan.start.Valid (L.map free ++ M') ∧ L ≠ [] ∧
      sp = Span.ofLexemes (Text.ofLexemes L₁ []) L sp.token := by
  induction M generalizing before run with
  | nil =>
    obtain ⟨hne, rfl⟩ := Span.exists_of_mem_ofRun h
    exact ⟨before, run, [], List.append_assoc _ _ _, hM, hne, rfl⟩
  | cons m M ih =>
    cases m with
    | free x =>
      rw [map_free_append_free] at hM
      obtain ⟨L₁, L, M', heq, hspan⟩ := ih hM h
      refine ⟨L₁, L, M', ?_, hspan⟩
      rw [← heq]
      simp [source]
    | keyword src token =>
      rw [spansAfter, ← Text.ofLexemes_append, ← Text.ofLexemes_append, List.mem_append,
        List.mem_cons] at h
      obtain ⟨hhit, hbehind⟩ := hM.behind_free
      rcases h with h | rfl | h
      · obtain ⟨hne, rfl⟩ := Span.exists_of_mem_ofRun h
        exact ⟨before, run, keyword src token :: M, List.append_assoc _ _ _, hM, hne, rfl⟩
      · exact absurd hkind (Lexeme.kind_ne_str_of_hit? (Scan.hit?_eq_some hhit).2)
      · have hempty : Scan.start.Valid (([] : List Lexeme).map free ++ M) := hbehind
        obtain ⟨L₁, L, M', heq, hspan⟩ := ih hempty h
        refine ⟨L₁, L, M', ?_, hspan⟩
        rw [← heq]
        simp [source]

/-! ### Where no keyword token can begin -/

namespace Nesting

theorem isTop_eq_false_of_isOpen {n : Nesting} (h : n.quoting.isOpen = true) : n.isTop = false := by
  simp [isTop, h]

theorem closes_eq_false {n : Nesting} {c : Char} (h : (n.next c).isTop = false) :
    n.closes c = false := by
  rw [closes, h, Bool.false_and]

end Nesting

namespace Chunk

/-- Behind a character inside a chunk no keyword token can begin. -/
theorem Sound.inside {chunk : Chunk} (h : chunk.Sound) {p v : Text} {d c : Char}
    (htext : chunk.text = p ++ d :: c :: v) (k : Nat) :
    let n := (⟨.outside, k⟩ : Nesting).after p
    (n.isTop = true → SqlLayout.isBlank d = false) ∧ n.closes d = false ∧
      ((n.next d).isTop = true → isWordChar c = true) := by
  intro n
  cases chunk with
  | quoted region =>
    obtain ⟨q, body, rfl, hbody⟩ := h
    cases p with
    | nil =>
      obtain ⟨rfl, rfl⟩ := List.cons.inj htext
      have hnext : (n.next q.char).isTop = false := by
        change ((⟨.outside, k⟩ : Nesting).next q.char).isTop = false
        rw [Nesting.next_quote]
        exact Nesting.isTop_eq_false_of_isOpen rfl
      exact ⟨fun _ => isBlank_quote q, Nesting.closes_eq_false hnext,
        fun htop => absurd htop (by simp [hnext])⟩
    | cons b p =>
      rw [List.cons_append] at htext
      obtain ⟨rfl, rfl⟩ := List.cons.inj htext
      have hn : n = ⟨(Quoting.inside q).after p, k⟩ := by
        change ((⟨.outside, k⟩ : Nesting).next q.char).after p = _
        rw [Nesting.next_quote, Nesting.after_of_staysOpen (staysOpen_left hbody)]
      obtain ⟨hopen, hopen', -⟩ := hbody.right
      have htop : n.isTop = false := by
        rw [hn]
        exact Nesting.isTop_eq_false_of_isOpen hopen
      have hnext : (n.next d).isTop = false := by
        rw [hn]
        exact Nesting.isTop_eq_false_of_isOpen hopen'
      exact ⟨fun h => absurd h (by simp [htop]), Nesting.closes_eq_false hnext,
        fun h => absurd h (by simp [hnext])⟩
  | word letters =>
    have hword : ∀ b ∈ p ++ d :: c :: v, isWordChar b = true := htext ▸ h.2
    have hd : isWordChar d = true := hword d (by simp)
    have hn : n = ⟨.outside, k⟩ :=
      Nesting.after_of_isWordChar (fun b hb => hword b (List.mem_append_left _ hb)) k
    exact ⟨fun _ => isBlank_of_isWordChar hd, hn ▸ Nesting.closes_of_isWordChar hd k,
      fun _ => hword c (by simp)⟩
  | blank run => exact h.elim
  | other b =>
    cases p with
    | nil => cases htext
    | cons a p => cases p <;> cases htext

/-- The last character of a chunk closes what the chunk closes. -/
theorem Sound.closes_concat {chunk : Chunk} (h : chunk.Sound) (hclosed : chunk.Closed) {p : Text}
    {d : Char} (htext : chunk.text = p ++ [d]) (k : Nat) :
    ((⟨.outside, k⟩ : Nesting).after p).closes d = chunk.closes k := by
  cases chunk with
  | quoted region =>
    obtain ⟨q, body, rfl, hbody⟩ := h
    have hout : (Quoting.inside q).after body = .outside := by
      simpa [Closed, text] using hclosed
    cases p with
    | nil =>
      obtain ⟨-, rfl⟩ := List.cons.inj htext
      cases hout
    | cons b p =>
      rw [List.cons_append] at htext
      obtain ⟨rfl, rfl⟩ := List.cons.inj htext
      obtain ⟨hopen, -⟩ := hbody.right
      have hcovers := Quoting.covers_of_isOpen hopen d
      have hnext : ((Quoting.inside q).after p).next d = .outside := by
        rwa [Quoting.after_append] at hout
      rw [Nesting.after_cons, Nesting.next_quote, Nesting.after_of_staysOpen (staysOpen_left hbody)]
      simp [Nesting.closes, Nesting.next, hcovers, hnext, Nesting.isTop_outside, closes]
  | word letters =>
    have hword : ∀ b ∈ p ++ [d], isWordChar b = true := htext ▸ h.2
    rw [Nesting.after_of_isWordChar fun b hb => hword b (List.mem_append_left _ hb),
      Nesting.closes_of_isWordChar (hword d (by simp))]
    rfl
  | blank run => exact h.elim
  | other b =>
    cases p with
    | cons a p => cases p <;> cases htext
    | nil =>
      obtain ⟨rfl, -⟩ := List.cons.inj htext
      exact Nesting.closes_of_not_isQuote h.1 k

end Chunk

namespace Text

/-- Nothing is found at a blank character. -/
theorem hasHit_cons_of_isBlank {c : Char} (h : isBlank c = true) (t : Text) :
    hasHit (c :: t) = false := by
  have hnone : hit? (c :: t) = none := by
    rw [hit?_eq, List.findSome?_eq_none_iff]
    intro f _
    rw [Family.hit?, Option.or_eq_none_iff]
    constructor
    · rw [Family.symbolHit?, Option.map_eq_none_iff, List.find?_eq_none]
      intro s hs
      simp [isPrefixOf_cons_of_mem_symbols hs (Or.inl h) t]
    · rw [Family.phraseHit?, List.findSome?_eq_none_iff]
      intro p _
      have hword : Keyword.continuesWord (c :: t) = false := isWordChar_of_isBlank h
      rw [Phrase.split?, Keyword.split?_eq_none hword]
      rfl
  rw [hasHit, hnone]
  rfl

/-- Where a character stands among lexemes. -/
theorem exists_of_ofLexemes_eq {L : List Lexeme} {x y : Text} {c : Char}
    (h : ofLexemes L [] = x ++ c :: y) :
    ∃ A z B u v, L = A ++ z :: B ∧ z.text = u ++ c :: v ∧ x = ofLexemes A [] ++ u ∧
      y = v ++ ofLexemes B [] := by
  induction L generalizing x with
  | nil => simp at h
  | cons z L ih =>
    have hbehind {x' : Text} (hx : x = z.text ++ x') (hL : ofLexemes L [] = x' ++ c :: y) :
        ∃ A w B u v, z :: L = A ++ w :: B ∧ w.text = u ++ c :: v ∧ x = ofLexemes A [] ++ u ∧
          y = v ++ ofLexemes B [] := by
      obtain ⟨A, w, B, u, v, rfl, hw, rfl, hy⟩ := ih hL
      refine ⟨z :: A, w, B, u, v, rfl, hw, ?_, hy⟩
      rw [hx, ofLexemes_cons, Lexeme.text]
      simp only [List.append_assoc]
    rw [ofLexemes_cons, ← List.append_assoc] at h
    rcases List.append_eq_append_iff.1 h with ⟨x', hx, hL⟩ | ⟨v, hz, hv⟩
    · exact hbehind hx hL
    · cases v with
      | nil =>
        rw [List.append_nil] at hz
        have hx : x = z.text ++ [] := by rw [List.append_nil]; exact hz.symm
        exact hbehind hx hv.symm
      | cons d v =>
        obtain ⟨rfl, rfl⟩ := List.cons.inj hv
        exact ⟨[], z, L, x, v, rfl, hz, rfl, rfl⟩

end Text

/-! ### Lexemes in which nothing is found -/

namespace Lexeme

/-- A character of a lexeme is part of its gap or of its chunk. -/
theorem isBlank_or_of_text_eq {z : Lexeme} (h : z.gap.IsBlank) {u v : Text} {c : Char}
    (htext : z.text = u ++ c :: v) :
    isBlank c = true ∨ ∃ p, u = z.gap ++ p ∧ z.chunk.text = p ++ c :: v := by
  rcases List.append_eq_append_iff.1 htext with ⟨p, hu, hchunk⟩ | ⟨g, hgap, hchunk⟩
  · exact Or.inr ⟨p, hu, hchunk⟩
  · cases g with
    | nil =>
      rw [List.append_nil] at hgap
      exact Or.inr ⟨[], by rw [List.append_nil, hgap], hchunk.symm⟩
    | cons d g =>
      obtain ⟨rfl, -⟩ := List.cons.inj hchunk
      exact Or.inl (h c (by simp [hgap]))

/-- A break in front of the chunk of a lexeme is a gap, or the lexeme in front of it closes. -/
theorem Tight.of_endsBreak {tail : Text} {P Q : List Lexeme} {z : Lexeme}
    (h : Tight tail (P ++ z :: Q)) (hbreak : (Text.ofLexemes P [] ++ z.gap).EndsBreak) :
    depthAfter 0 P = 0 ∧
      (z.gap ≠ [] ∨ ∃ A w, P = A ++ [w] ∧ w.chunk.closes (depthAfter 0 A) = true) := by
  obtain ⟨u, d, heq, hbreak⟩ := hbreak
  have htop : (Nesting.start.after (Text.ofLexemes P [] ++ z.gap)).isTop = true := by
    rw [heq, Nesting.after_append]
    rcases hbreak with ⟨htop, hd⟩ | hcloses
    · have hgap : Text.IsBlank [d] := fun b hb => by rwa [List.mem_singleton.1 hb]
      rwa [Nesting.isTop_after_isBlank hgap]
    · exact Nesting.isTop_of_closes hcloses
  rw [h.nesting_in_front, Nesting.isTop_outside, beq_iff_eq] at htop
  refine ⟨htop, or_iff_not_imp_left.2 fun hgap => ?_⟩
  rw [not_not.1 hgap, List.append_nil] at heq
  rcases P.eq_nil_or_concat with rfl | ⟨A, w, rfl⟩
  · simp at heq
  · rw [List.concat_eq_append] at *
    have hclosed : w.chunk.Closed := h.closed_left (List.cons_ne_nil z Q) w (by simp)
    rw [List.append_assoc, List.singleton_append] at h
    have hsound : w.chunk.Sound := h.right.2.1
    obtain ⟨p, e, htext, he, -⟩ := hsound.exists_concat hclosed
    have hsplit : Text.ofLexemes (A ++ [w]) [] = (Text.ofLexemes A [] ++ w.gap ++ p) ++ [e] := by
      simp [Text.ofLexemes, Lexeme.text, htext]
    rw [hsplit] at heq
    obtain ⟨rfl, hde⟩ := List.append_inj' heq rfl
    obtain rfl : e = d := List.head_eq_of_cons_eq hde
    refine ⟨A, w, rfl, ?_⟩
    rcases hbreak with ⟨-, hd⟩ | hcloses
    · rw [he] at hd
      cases hd
    · rwa [Nesting.after_append, h.nesting_in_front, hsound.closes_concat hclosed htext] at hcloses

/-- Where a scan finds nothing in front of a lexeme, no keyword token begins at any of the
characters of the lexeme. -/
theorem Tight.exhausted {tail : Text} {P Q : List Lexeme} {z : Lexeme}
    (h : Tight tail (P ++ z :: Q)) {s : Scan} (hdepth : s.depth = depthAfter 0 P)
    (hready : ∀ A w, P = A ++ [w] → w.chunk.closes (depthAfter 0 A) = true → s.ready = true)
    (hhit : s.hit? (z :: Q) = none) {u v : Text} {c : Char} (htext : z.text = u ++ c :: v) :
    ((Text.ofLexemes P [] ++ u).EndsBreak →
        Text.hasHit (c :: (v ++ Text.ofLexemes Q tail)) = false) ∧
      ((Nesting.start.after (Text.ofLexemes P [] ++ u)).isTop = true →
        Text.startsSymbol (c :: (v ++ Text.ofLexemes Q tail)) = false) := by
  rcases isBlank_or_of_text_eq h.right.1 htext with hc | ⟨p, rfl, hchunk⟩
  · exact ⟨fun _ => Text.hasHit_cons_of_isBlank hc _,
      fun _ => Text.startsSymbol_cons_eq_false (Or.inl hc) _⟩
  · have hfront := h.nesting_in_front
    rw [← List.append_assoc]
    rcases p.eq_nil_or_concat with rfl | ⟨p, d, rfl⟩
    · -- the first character of the chunk
      have hbody : c :: (v ++ Text.ofLexemes Q tail) = body (z :: Q) ++ tail := by
        rw [List.nil_append] at hchunk
        simp [body, Text.ofLexemes, hchunk]
      rw [List.append_nil, hbody, h.right.hasHit_body, h.right.startsSymbol_body]
      constructor
      · intro hbreak
        obtain ⟨hd, htried⟩ := h.of_endsBreak hbreak
        have hlooks : s.ready = true ∨ z.gap ≠ [] := by
          rcases htried with hgap | ⟨A, w, hP, hcloses⟩
          · exact Or.inr hgap
          · exact Or.inl (hready A w hP hcloses)
        have hnone : hit? (z :: Q) = none :=
          (Scan.hit?_of_tried (hdepth.trans hd) (hlooks.imp_right Or.inl)).symm.trans hhit
        rw [hnone]
        rfl
      · intro htop
        rw [hfront, Nesting.isTop_outside, beq_iff_eq] at htop
        rw [Bool.eq_false_iff]
        intro hsymbol
        have hnone : hit? (z :: Q) = none :=
          (Scan.hit?_of_tried (hdepth.trans htop) (Or.inr (Or.inr hsymbol))).symm.trans hhit
        have hsome := isSome_hit?_of_startsSymbol hsymbol
        rw [hnone] at hsome
        cases hsome
    · -- a character inside the chunk
      rw [List.concat_eq_append] at *
      rw [List.append_assoc, List.singleton_append] at hchunk
      obtain ⟨hblank, hcloses, hword⟩ := h.right.2.1.inside hchunk (depthAfter 0 P)
      rw [← hfront, ← Nesting.after_append] at hblank hcloses hword
      rw [← List.append_assoc]
      constructor
      · rintro ⟨u, e, heq, hbreak⟩
        obtain ⟨rfl, hde⟩ := List.append_inj' heq rfl
        obtain rfl : d = e := List.head_eq_of_cons_eq hde
        rcases hbreak with ⟨htop, hd⟩ | hcloses'
        · rw [hblank htop] at hd
          cases hd
        · rw [hcloses] at hcloses'
          cases hcloses'
      · intro htop
        rw [Nesting.after_append] at htop
        exact Text.startsSymbol_cons_eq_false (Or.inr (hword htop)) _

end Lexeme

/-! ### Free text -/

namespace Scan

/-- Behind free lexemes of a token a scan is ready where the lexeme in front closes. -/
theorem ready_after_start {L₁ A P : List Lexeme} {w : Lexeme}
    (hdepth : Lexeme.depthAfter 0 L₁ = 0) (heq : L₁ ++ A = P ++ [w])
    (hcloses : w.chunk.closes (Lexeme.depthAfter 0 P) = true) : (start.after A).ready = true := by
  rcases A.eq_nil_or_concat with rfl | ⟨A, z, rfl⟩
  · rfl
  · rw [List.concat_eq_append, ← List.append_assoc] at heq
    obtain ⟨rfl, hzw⟩ := List.append_inj' heq rfl
    obtain rfl : z = w := List.head_eq_of_cons_eq hzw
    rw [List.concat_eq_append, ready_after_concat]
    rwa [Lexeme.depthAfter_append, hdepth] at hcloses

end Scan

namespace Lexeme

/-- Nothing has been missed at the characters of free lexemes, where no parenthesis is open in front
of them. -/
theorem Tight.exhausted_free {tail : Text} {L₁ L : List Lexeme} {M : List Mark}
    (h : Tight tail (L₁ ++ (L ++ M.flatMap Mark.source)))
    (hvalid : Scan.start.Valid (L.map .free ++ M)) (hdepth : depthAfter 0 L₁ = 0) {x y : Text}
    {c : Char} (hsplit : Text.ofLexemes L [] = x ++ c :: y) :
    ((Text.ofLexemes L₁ [] ++ x).EndsBreak →
        Text.hasHit (c :: (y ++ Text.ofLexemes (M.flatMap Mark.source) tail)) = false) ∧
      ((Nesting.start.after (Text.ofLexemes L₁ [] ++ x)).isTop = true →
        Text.startsSymbol (c :: (y ++ Text.ofLexemes (M.flatMap Mark.source) tail)) = false) := by
  obtain ⟨A, z, B, u, v, rfl, htext, rfl, rfl⟩ := Text.exists_of_ofLexemes_eq hsplit
  rw [List.append_assoc, List.cons_append, ← List.append_assoc] at h
  rw [← List.append_assoc, ← Text.ofLexemes_append, List.append_assoc, ← Text.ofLexemes_append]
  refine h.exhausted ?_ (fun P w => Scan.ready_after_start hdepth) hvalid.hit?_eq_none htext
  rw [Scan.depth_after, depthAfter_append, hdepth]
  rfl

end Lexeme

namespace Text

/-- The lexemes of a span of free text. -/
theorem exists_free_of_mem_spans {t : Text} {sp : Span} (h : sp ∈ t.spans)
    (hkind : sp.token.kind = .str) :
    ∃ (L₁ : List Lexeme) (x : Lexeme) (ws : List Lexeme) (M : List Mark) (gap : Text),
      t.toLexemes = L₁ ++ (x :: ws ++ M.flatMap Mark.source) ∧
      Scan.start.Valid ((x :: ws).map .free ++ M) ∧ Lexeme.depthAfter 0 L₁ = 0 ∧
      sp.before = ofLexemes L₁ [] ++ x.gap ∧ Lexeme.body (x :: ws) = sp.source ++ gap := by
  have hnesting := nesting_before_span h
  have hmem : sp ∈ Mark.spansAfter (ofLexemes [] []) [] (Scan.start.marks t.toLexemes) := h
  obtain ⟨L₁, L, M, heq, hvalid, hne, hsp⟩ :=
    Mark.exists_valid_of_mem_spansAfter (Scan.valid_marks .start t.toLexemes) hmem hkind
  rw [List.nil_append, List.nil_append, Scan.flatMap_source_marks] at heq
  obtain ⟨x, ws, rfl⟩ := List.exists_cons_of_ne_nil hne
  have ht := t.tight_toLexemes
  rw [heq] at ht
  have hbefore : sp.before = ofLexemes L₁ [] ++ x.gap := by rw [hsp]; rfl
  have hsource : sp.source = (Lexeme.body (x :: ws)).trimEnd := by rw [hsp]; rfl
  obtain ⟨gap, -, -, hbody⟩ := ht.right.left.exists_isSolid_body
  rw [← hsource] at hbody
  rw [hbefore, ht.nesting_in_front] at hnesting
  exact ⟨L₁, x, ws, M, gap, heq, hvalid, congrArg Nesting.depth hnesting, hbefore, hbody⟩

/-- No keyword token has been missed in a span of free text. -/
theorem isExhausted_of_mem_spans {t : Text} {sp : Span} (h : sp ∈ t.spans)
    (hkind : sp.token.kind = .str) :
    ∃ rest, t = sp.before ++ (sp.source ++ rest) ∧ sp.IsExhausted rest := by
  obtain ⟨L₁, x, ws, M, gap, heq, hvalid, hdepth, hbefore, hbody⟩ :=
    exists_free_of_mem_spans h hkind
  have ht := t.tight_toLexemes
  rw [heq] at ht
  have hrest : sp.source ++ (gap ++ ofLexemes (M.flatMap Mark.source) t.lastGap) =
      Lexeme.body (x :: (ws ++ M.flatMap Mark.source)) ++ t.lastGap := by
    rw [← List.append_assoc, ← hbody]
    simp [Lexeme.body, ofLexemes]
  have hsplit {u v : Text} {c : Char} (hsource : sp.source = u ++ c :: v) :
      ofLexemes (x :: ws) [] = (x.gap ++ u) ++ c :: (v ++ gap) := by
    rw [Lexeme.ofLexemes_eq_gap_append_body, List.append_nil, hbody, hsource]
    simp
  refine ⟨gap ++ ofLexemes (M.flatMap Mark.source) t.lastGap, ?_, ?_, fun u c v hsource => ?_,
    fun u c v hsource => ?_⟩
  · rw [hrest, hbefore, List.append_assoc, ← Lexeme.ofLexemes_eq_gap_append_body,
      ← ofLexemes_append, ← List.cons_append, ← heq, ofLexemes_toLexemes]
  · have hready : Scan.start.ready = true := rfl
    have hnone : Lexeme.hit? (x :: (ws ++ M.flatMap Mark.source)) = none :=
      (Scan.hit?_of_tried rfl (Or.inl hready)).symm.trans (hvalid.hit?_eq_none (A := []))
    have hbehind : Lexeme.Tight t.lastGap (x :: (ws ++ M.flatMap Mark.source)) := ht.right
    rw [hrest, hbehind.hasHit_body, hnone]
    rfl
  · have hfree := (ht.exhausted_free hvalid hdepth (hsplit hsource)).1
    rwa [← List.append_assoc, ← hbefore, List.append_assoc] at hfree
  · have hfree := (ht.exhausted_free hvalid hdepth (hsplit hsource)).2
    rwa [← List.append_assoc, ← hbefore, List.append_assoc] at hfree

/-- Keyword tokens are complete: in the span of a token of free text no phrase and no symbol stands
at a place where it would have been read as a keyword token. -/
theorem keyword_tokens_complete (t : Text) :
    (Span.Tile [] t.spans t ∧ t.spans.map Span.token = t.tokens) ∧
      ∀ sp ∈ t.spans, sp.token.kind = .str →
        ∃ rest, t = sp.before ++ (sp.source ++ rest) ∧ sp.IsExhausted rest :=
  ⟨⟨t.tile_spans, t.map_token_spans⟩, fun _ hsp hkind => isExhausted_of_mem_spans hsp hkind⟩

/-- Free text with a keyword inside a group, and with one that a word goes on in behind the
group. -/
theorem keyword_tokens_complete_behind_group :
    ∃ sp ∈ spans "on (a or b)orc 'x' in c".toList, sp.token.kind = .str ∧
      sp.source = "(a or b)orc 'x'".toList ∧ EndsBreak (sp.before ++ "(a or b)".toList) ∧
      (∃ rest, "on (a or b)orc 'x' in c".toList = sp.before ++ (sp.source ++ rest) ∧
        sp.IsExhausted rest) ∧
      hasHit "orc 'x' in c".toList = false := by
  have hspan : (⟨"on ".toList, "(a or b)orc 'x'".toList, .str "(a or b)orc 'x'".toList⟩ : Span) ∈
      spans "on (a or b)orc 'x' in c".toList := by
    decide +kernel
  have hbreak : EndsBreak "on (a or b)".toList :=
    ⟨"on (a or b".toList, ')', rfl, Or.inr (by decide)⟩
  obtain ⟨rest, heq, hexhausted⟩ :=
    (keyword_tokens_complete "on (a or b)orc 'x' in c".toList).2 _ hspan rfl
  have hsplit : "on (a or b)orc 'x'".toList ++ " in c".toList =
      "on (a or b)orc 'x'".toList ++ rest := heq
  have hrest : " in c".toList = rest := List.append_cancel_left hsplit
  have hhit := hexhausted.atBreak "(a or b)".toList 'o' "rc 'x'".toList rfl hbreak
  rw [← hrest] at hhit
  exact ⟨_, hspan, rfl, rfl, hbreak, ⟨rest, heq, hexhausted⟩, hhit⟩

end Text

end SqlLayout
