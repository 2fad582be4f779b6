import SqlLayout.Proofs.Scan.Marks

/-!
# Words of free text, lexeme by lexeme

A word of free text is followed character by character, with the state of quotes and parentheses
kept for each word anew.  Here it is followed lexeme by lexeme: a word takes each chunk whole, and
where it ends a scan of the lexemes begins anew.

## Main definitions

* `Lexeme.Stops` : a word that has begun in front of a lexeme ends there.

## Main results

* `Chunk.Sound.nesting_after` : quotes and parentheses behind a chunk.
* `Text.wordTail_chunk_append` : a word takes a chunk whole.
* `Lexeme.Tight.exists_firstWord` : where a word ends, and what a scan makes of it.
-/

namespace SqlLayout

/-! ### Quotes and parentheses behind chunks -/

namespace Nesting

theorem next_of_not_isQuote {c : Char} (h : isQuote c = false) (d : Nat) :
    (⟨.outside, d⟩ : Nesting).next c = ⟨.outside, depthAfter d c⟩ := by
  simp [next, Quoting.next_outside_of_not_isQuote h, Quoting.covers, h]

@[simp] theorem next_quote (q : Quote) (d : Nat) :
    (⟨.outside, d⟩ : Nesting).next q.char = ⟨.inside q, d⟩ := by
  simp [next, Quoting.covers, isQuote]

theorem isTop_outside (d : Nat) : (⟨.outside, d⟩ : Nesting).isTop = (d == 0) := by
  simp [isTop, Quoting.isOpen]

theorem depthAfter_of_isWordChar {c : Char} (h : isWordChar c = true) (d : Nat) :
    depthAfter d c = d := by
  have hopen : c ≠ '(' := by rintro rfl; exact absurd h (by decide)
  have hclose : c ≠ ')' := by rintro rfl; exact absurd h (by decide)
  simp [depthAfter, hopen, hclose]

theorem next_of_isWordChar {c : Char} (h : isWordChar c = true) (d : Nat) :
    (⟨.outside, d⟩ : Nesting).next c = ⟨.outside, d⟩ := by
  rw [next_of_not_isQuote (isQuote_of_isWordChar h), depthAfter_of_isWordChar h]

theorem closes_of_isWordChar {c : Char} (h : isWordChar c = true) (d : Nat) :
    (⟨.outside, d⟩ : Nesting).closes c = false := by
  have hparen : c ≠ ')' := by rintro rfl; exact absurd h (by decide)
  simp [closes, Quoting.covers, isQuote_of_isWordChar h, hparen]

theorem closes_of_not_isQuote {c : Char} (h : isQuote c = false) (d : Nat) :
    (⟨.outside, d⟩ : Nesting).closes c = (Chunk.other c).closes d := by
  simp only [closes, next_of_not_isQuote h, Quoting.covers, h, Bool.false_or, isTop,
    Quoting.isOpen, Bool.not_false, Bool.and_true, Chunk.closes]
  exact Bool.and_comm _ _

theorem depthAfter_of_isBlank {c : Char} (h : isBlank c = true) (d : Nat) :
    depthAfter d c = d := by
  have hopen : c ≠ '(' := by rintro rfl; exact absurd h (by decide)
  have hclose : c ≠ ')' := by rintro rfl; exact absurd h (by decide)
  simp [depthAfter, hopen, hclose]

theorem after_of_isWordChar {letters : Text} (h : ∀ c ∈ letters, isWordChar c = true) (d : Nat) :
    (⟨.outside, d⟩ : Nesting).after letters = ⟨.outside, d⟩ := by
  induction letters with
  | nil => rfl
  | cons c letters ih =>
    rw [after_cons, next_of_isWordChar (h c List.mem_cons_self)]
    exact ih fun b hb => h b (List.mem_cons_of_mem c hb)

/-- Inside a region parentheses are not counted. -/
theorem after_of_staysOpen {s : Quoting} {body : Text} (h : s.StaysOpen body) (d : Nat) :
    (⟨s, d⟩ : Nesting).after body = ⟨s.after body, d⟩ := by
  induction body generalizing s with
  | nil => rfl
  | cons c body ih =>
    have hnext : (⟨s, d⟩ : Nesting).next c = ⟨s.next c, d⟩ := by
      simp [next, Quoting.covers_of_isOpen h.1]
    rw [after_cons, hnext, ih h.2]
    rfl

theorem after_of_isBlank {gap : Text} (h : gap.IsBlank) (d : Nat) :
    (⟨.outside, d⟩ : Nesting).after gap = ⟨.outside, d⟩ := by
  induction gap with
  | nil => rfl
  | cons c gap ih =>
    have hc := h c List.mem_cons_self
    rw [after_cons, next_of_not_isQuote (isQuote_of_isBlank hc), depthAfter_of_isBlank hc]
    exact ih fun b hb => h b (List.mem_cons_of_mem c hb)

end Nesting

/-- Quotes and parentheses behind a chunk. -/
theorem Chunk.Sound.nesting_after {chunk : Chunk} (h : chunk.Sound) (d : Nat) :
    (⟨.outside, d⟩ : Nesting).after chunk.text =
      ⟨Quoting.outside.after chunk.text, chunk.depthAfter d⟩ := by
  cases chunk with
  | quoted region =>
    obtain ⟨q, body, rfl, hbody⟩ := h
    rw [Chunk.text, Nesting.after_cons, Nesting.next_quote, Nesting.after_of_staysOpen hbody,
      Quoting.after_cons, Quoting.next_outside_quote]
    rfl
  | word letters =>
    obtain ⟨-, hletters⟩ := h
    rw [Chunk.text, Quoting.after_outside_of_not_isQuote fun c hc =>
      isQuote_of_isWordChar (hletters c hc), Nesting.after_of_isWordChar hletters]
    rfl
  | blank run => exact h.elim
  | other c =>
    rw [Chunk.text, Nesting.after_cons, Nesting.next_of_not_isQuote h.1, Quoting.after_cons,
      Quoting.next_outside_of_not_isQuote h.1]
    rfl

/-! ### Words of free text -/

namespace Text

/-- Inside a region a word goes on to the quote that closes the region. -/
theorem wordTail_of_staysOpen {s : Quoting} {body rest : Text} (h : s.StaysOpen body)
    (hne : body ≠ []) (hend : s.after body = .outside ∨ rest = []) (d : Nat) (closed : Bool) :
    wordTail ⟨s, d⟩ closed (body ++ rest) = body ++ wordTail ⟨.outside, d⟩ (d == 0) rest := by
  induction body generalizing s closed with
  | nil => exact absurd rfl hne
  | cons c body ih =>
    obtain ⟨hs, hbody⟩ := h
    have hcovers := Quoting.covers_of_isOpen hs c
    have hnext : (⟨s, d⟩ : Nesting).next c = ⟨s.next c, d⟩ := by simp [Nesting.next, hcovers]
    have htop : (⟨s, d⟩ : Nesting).isTop = false := by simp [Nesting.isTop, hs]
    rw [List.cons_append, wordTail_cons, htop, hnext]
    simp only [Bool.false_and, Bool.false_eq_true, if_false, List.cons_append]
    cases body with
    | nil =>
      rcases hend with hout | rfl
      · have hout : s.next c = .outside := hout
        have hcloses : (⟨s, d⟩ : Nesting).closes c = (d == 0) := by
          simp [Nesting.closes, hnext, hcovers, hout, Nesting.isTop, Quoting.isOpen]
        rw [hcloses, hout]
        rfl
      · rfl
    | cons b body => rw [ih hbody (List.cons_ne_nil b body) hend]

/-- No symbol begins with a blank character or a word character. -/
theorem isPrefixOf_cons_of_mem_symbols {f : Family} {s : Text} (hs : s ∈ f.symbols) {c : Char}
    (hc : isBlank c = true ∨ isWordChar c = true) (t : Text) :
    List.isPrefixOf s (c :: t) = false := by
  cases s with
  | nil => exact absurd rfl (Family.ne_nil_of_mem_symbols hs)
  | cons b s =>
    obtain ⟨-, hblank, hword⟩ := Lexeme.class_of_mem_symbols hs b List.mem_cons_self
    have hbc : (b == c) = false := by
      rw [beq_eq_false_iff_ne]
      rintro rfl
      rcases hc with hc | hc
      · exact absurd hc (by simp [hblank])
      · exact absurd hc (by simp [hword])
    rw [List.isPrefixOf, hbc, Bool.false_and]

theorem startsSymbol_cons_eq_false {c : Char} (hc : isBlank c = true ∨ isWordChar c = true)
    (t : Text) : startsSymbol (c :: t) = false := by
  rw [startsSymbol, List.any_eq_false]
  intro s hs
  simp [isPrefixOf_cons_of_mem_symbols hs hc t]

/-- A word goes on as long as word characters follow one that does not close anything. -/
theorem wordTail_of_isWordChar {letters : Text} (h : ∀ c ∈ letters, isWordChar c = true)
    (rest : Text) (d : Nat) :
    wordTail ⟨.outside, d⟩ false (letters ++ rest) =
      letters ++ wordTail ⟨.outside, d⟩ false rest := by
  induction letters with
  | nil => rfl
  | cons c letters ih =>
    have hc := h c List.mem_cons_self
    have hends : endsWord false (c :: (letters ++ rest)) = false := by
      simp [endsWord_eq, startsBlank, isBlank_of_isWordChar hc,
        startsSymbol_cons_eq_false (.inr hc)]
    rw [List.cons_append, wordTail_cons, hends, Nesting.next_of_isWordChar hc,
      Nesting.closes_of_isWordChar hc, ih fun b hb => h b (List.mem_cons_of_mem c hb)]
    simp

/-- Behind its first character a chunk belongs to the word that the character begins or goes on. -/
theorem wordTail_of_sound {chunk : Chunk} (hsound : chunk.Sound) {c : Char} {t : Text}
    (htext : chunk.text = c :: t) {rest : Text} (hend : chunk.Closed ∨ rest = []) (d : Nat) :
    wordTail ((⟨.outside, d⟩ : Nesting).next c) ((⟨.outside, d⟩ : Nesting).closes c) (t ++ rest) =
      t ++ wordTail ⟨.outside, chunk.depthAfter d⟩ (chunk.closes d) rest := by
  cases chunk with
  | quoted region =>
    obtain ⟨q, body, rfl, hbody⟩ := hsound
    obtain ⟨rfl, rfl⟩ := List.cons.inj htext
    have hend : (Quoting.inside q).after body = .outside ∨ rest = [] := by
      simpa [Chunk.Closed, Chunk.text] using hend
    rw [Nesting.next_quote]
    by_cases hne : body = []
    · subst hne
      rcases hend with hout | rfl
      · cases hout
      · rfl
    · exact wordTail_of_staysOpen hbody hne hend d _
  | word letters =>
    have hletters := hsound.2
    have htext : letters = c :: t := htext
    subst htext
    have hc := hletters c List.mem_cons_self
    rw [Nesting.next_of_isWordChar hc, Nesting.closes_of_isWordChar hc]
    exact wordTail_of_isWordChar (fun b hb => hletters b (List.mem_cons_of_mem c hb)) rest d
  | blank run => exact hsound.elim
  | other b =>
    obtain ⟨rfl, rfl⟩ := List.cons.inj htext
    have hquote : isQuote b = false := hsound.1
    rw [Nesting.next_of_not_isQuote hquote, Nesting.closes_of_not_isQuote hquote]
    rfl

/-- In parentheses a word goes on over blank characters. -/
theorem wordTail_of_isBlank {gap : Text} (h : gap.IsBlank) {d : Nat} (hd : d ≠ 0) (closed : Bool)
    (rest : Text) : ∃ closed', wordTail ⟨.outside, d⟩ closed (gap ++ rest) =
      gap ++ wordTail ⟨.outside, d⟩ closed' rest := by
  induction gap generalizing closed with
  | nil => exact ⟨closed, rfl⟩
  | cons c gap ih =>
    have hc := h c List.mem_cons_self
    have htop : (⟨.outside, d⟩ : Nesting).isTop = false := by simp [Nesting.isTop, hd]
    have hnext : (⟨.outside, d⟩ : Nesting).next c = ⟨.outside, d⟩ := by
      rw [Nesting.next_of_not_isQuote (isQuote_of_isBlank hc), Nesting.depthAfter_of_isBlank hc]
    obtain ⟨closed', hrest⟩ := ih (fun b hb => h b (List.mem_cons_of_mem c hb))
      ((⟨.outside, d⟩ : Nesting).closes c)
    refine ⟨closed', ?_⟩
    rw [List.cons_append, wordTail_cons, htop, hnext, hrest]
    simp

/-- A word takes a chunk whole if it does not end in front of it. -/
theorem wordTail_chunk_append {chunk : Chunk} (hsound : chunk.Sound) {rest : Text}
    (hend : chunk.Closed ∨ rest = []) {d : Nat} {closed : Bool}
    (hgo : (d == 0 && endsWord closed (chunk.text ++ rest)) = false) :
    wordTail ⟨.outside, d⟩ closed (chunk.text ++ rest) =
      chunk.text ++ wordTail ⟨.outside, chunk.depthAfter d⟩ (chunk.closes d) rest := by
  obtain ⟨c, t, htext, -, -⟩ := hsound.exists_cons
  have htail := wordTail_of_sound hsound htext hend d
  rw [htext] at hgo ⊢
  rw [List.cons_append, wordTail_cons, Nesting.isTop_outside]
  rw [List.cons_append] at hgo
  rw [hgo, htail]
  simp

theorem wordTail_eq_nil {d : Nat} {closed : Bool} {t : Text} (hd : d = 0)
    (h : endsWord closed t = true) : wordTail ⟨.outside, d⟩ closed t = [] := by
  cases t with
  | nil => rfl
  | cons c t =>
    rw [wordTail_cons, Nesting.isTop_outside, h, hd]
    rfl

end Text

namespace Scan

theorem hit?_eq_none {s : Scan} {x : Lexeme} {L : List Lexeme}
    (h : s.depth = 0 → x.gap = [] ∧ Lexeme.startsSymbol (x :: L) = false ∧
      (s.ready = true → Lexeme.hit? (x :: L) = none)) : s.hit? (x :: L) = none := by
  rw [hit?]
  split
  · rename_i htried
    simp only [Bool.and_eq_true, beq_iff_eq, Bool.or_eq_true, Bool.not_eq_true',
      List.isEmpty_eq_false_iff] at htried
    obtain ⟨hd, htried⟩ := htried
    obtain ⟨hgap, hsymbol, hready⟩ := h hd
    rcases htried with (hr | hg) | hs
    · exact hready hr
    · exact absurd hgap hg
    · rw [hsymbol] at hs
      cases hs
  · rfl

/-- A scan that would look for a hit anyway goes on like one that has just started. -/
theorem marks_eq_start_marks {s : Scan} {x : Lexeme} {L : List Lexeme} (hd : s.depth = 0)
    (h : s.ready = true ∨ x.gap ≠ [] ∨ Lexeme.startsSymbol (x :: L) = true) :
    s.marks (x :: L) = start.marks (x :: L) := by
  have hhit : start.hit? (x :: L) = Lexeme.hit? (x :: L) := hit?_of_tried rfl (Or.inl rfl)
  have hnext : s.next x = start.next x := by simp [next, hd, start]
  rw [marks_cons, marks_cons, hit?_of_tried hd h, hhit, hnext]

end Scan

namespace Lexeme

/-- Whether a symbol stands at the start of a text, read off the lexemes. -/
theorem Tight.startsSymbol_body {tail : Text} {L : List Lexeme} (h : Tight tail L) :
    Text.startsSymbol (body L ++ tail) = startsSymbol L := by
  rw [Text.startsSymbol, startsSymbol, Bool.eq_iff_iff, List.any_eq_true, List.any_eq_true]
  refine exists_congr fun s => and_congr_right fun hs => ?_
  rw [h.isPrefixOf_body (class_of_mem_symbols hs)]

/-- Whether a phrase or a symbol stands at the start of a text, read off the lexemes. -/
theorem Tight.hasHit_body {tail : Text} {L : List Lexeme} (h : Tight tail L) :
    Text.hasHit (body L ++ tail) = (hit? L).isSome := by
  rw [Text.hasHit, h.hit?_body, Option.isSome_map]

/-- Where a word ends that has begun in front of lexemes. -/
theorem Tight.endsWord_body {tail : Text} {x : Lexeme} {L : List Lexeme} (h : Tight tail (x :: L))
    (closed : Bool) :
    Text.endsWord closed (x.chunk.text ++ Text.ofLexemes L tail) =
      (startsSymbol (x :: L) || closed && (hit? (x :: L)).isSome) := by
  have htext : x.chunk.text ++ Text.ofLexemes L tail = body (x :: L) ++ tail := by
    simp [body, Text.ofLexemes]
  rw [Text.endsWord_eq, h.2.1.startsBlank_append, htext, h.startsSymbol_body, h.hasHit_body,
    Bool.false_or]

/-- A word that has begun in front of a lexeme ends there: it stands behind a gap, or where a hit is
looked for. -/
def Stops (s : Scan) (tail : Text) (x : Lexeme) (L : List Lexeme) : Prop :=
  s.depth = 0 ∧ (x.gap ≠ [] ∨
    Text.endsWord s.ready (x.chunk.text ++ Text.ofLexemes L tail) = true)

/-- Where a word ends it takes nothing, and a scan goes on like one that has just started. -/
theorem Tight.of_stops {tail : Text} {s : Scan} {x : Lexeme} {L : List Lexeme}
    (h : Tight tail (x :: L)) (hstop : Stops s tail x L) :
    Text.wordTail ⟨.outside, s.depth⟩ s.ready (Text.ofLexemes (x :: L) tail) = [] ∧
      s.marks (x :: L) = Scan.start.marks (x :: L) ∧
      (x.gap ≠ [] ∨ (hit? (x :: L)).isSome = true) := by
  obtain ⟨hd, hstop⟩ := hstop
  have hends := hstop
  rw [h.endsWord_body s.ready, Bool.or_eq_true, Bool.and_eq_true] at hends
  have htried : s.ready = true ∨ x.gap ≠ [] ∨ startsSymbol (x :: L) = true := by
    rcases hends with hgap | hsymbol | hhit
    · exact Or.inr (Or.inl hgap)
    · exact Or.inr (Or.inr hsymbol)
    · exact Or.inl hhit.1
  refine ⟨Text.wordTail_eq_nil hd ?_, Scan.marks_eq_start_marks hd htried, ?_⟩
  · rw [Text.ofLexemes_cons]
    cases hx : x.gap with
    | nil => exact hstop.resolve_left (fun hne => hne hx)
    | cons c gap =>
      have hc : isBlank c = true := h.1 c (by rw [hx]; exact List.mem_cons_self)
      simp [Text.endsWord_eq, Text.startsBlank, hc]
  · rcases hends with hgap | hsymbol | hhit
    · exact Or.inl hgap
    · exact Or.inr (isSome_hit?_of_startsSymbol hsymbol)
    · exact Or.inr hhit.2

/-- Where a word does not end it takes the lexeme, and a scan makes free text of it. -/
theorem Tight.of_not_stops {tail : Text} {s : Scan} {x : Lexeme} {L : List Lexeme}
    (h : Tight tail (x :: L)) (hgo : ¬ Stops s tail x L) :
    Text.wordTail ⟨.outside, s.depth⟩ s.ready (Text.ofLexemes (x :: L) tail) =
        x.gap ++ (x.chunk.text ++ Text.wordTail ⟨.outside, (s.next x).depth⟩ (s.next x).ready
          (Text.ofLexemes L tail)) ∧
      s.marks (x :: L) = .free x :: (s.next x).marks L := by
  have hgap (hd : s.depth = 0) : x.gap = [] := by
    by_contra hg
    exact hgo ⟨hd, Or.inl hg⟩
  have hends (hd : s.depth = 0) :
      Text.endsWord s.ready (x.chunk.text ++ Text.ofLexemes L tail) = false :=
    Bool.eq_false_iff.2 fun he => hgo ⟨hd, Or.inr he⟩
  constructor
  · rw [Text.ofLexemes_cons]
    by_cases hd : s.depth = 0
    · rw [hgap hd, List.nil_append, List.nil_append]
      exact Text.wordTail_chunk_append h.2.1 h.closed_or_nil (by rw [hends hd, Bool.and_false])
    · obtain ⟨closed, hskip⟩ := Text.wordTail_of_isBlank h.1 hd s.ready
        (x.chunk.text ++ Text.ofLexemes L tail)
      rw [hskip, Text.wordTail_chunk_append h.2.1 h.closed_or_nil (by simp [hd])]
      rfl
  · refine Scan.marks_cons_of_none (Scan.hit?_eq_none fun hd => ?_)
    have hfalse := hends hd
    rw [h.endsWord_body s.ready, Bool.or_eq_false_iff, Bool.and_eq_false_imp] at hfalse
    exact ⟨hgap hd, hfalse.1, fun hr => by simpa using hfalse.2 hr⟩

/-- A word that has begun in front of lexemes takes some of them, and perhaps blank characters at
the end of the text.  A scan makes free text of them, and begins anew behind them. -/
theorem Tight.exists_wordTail {tail : Text} {L : List Lexeme} (h : Tight tail L) (s : Scan) :
    ∃ ws rest inner outer, L = ws ++ rest ∧ tail = inner ++ outer ∧ (rest = [] ∨ inner = []) ∧
      Text.wordTail ⟨.outside, s.depth⟩ s.ready (Text.ofLexemes L tail) =
        Text.ofLexemes ws inner ∧
      s.marks L = ws.map Mark.free ++ Scan.start.marks rest ∧
      ∀ x ∈ rest.head?, x.gap ≠ [] ∨ (hit? rest).isSome = true := by
  induction L generalizing s with
  | nil =>
    by_cases hd : s.depth = 0
    · refine ⟨[], [], [], tail, rfl, rfl, Or.inl rfl, ?_, rfl, fun x hx => by cases hx⟩
      cases tail with
      | nil => rfl
      | cons c tail =>
        have hc : isBlank c = true := h c List.mem_cons_self
        exact Text.wordTail_eq_nil hd (by simp [Text.endsWord_eq, Text.startsBlank, hc])
    · refine ⟨[], [], tail, [], rfl, (List.append_nil tail).symm, Or.inl rfl, ?_, rfl,
        fun x hx => by cases hx⟩
      obtain ⟨closed', htail⟩ := Text.wordTail_of_isBlank h hd s.ready []
      rw [List.append_nil] at htail
      rw [Text.ofLexemes_nil, htail]
      exact List.append_nil tail
  | cons x L ih =>
    by_cases hstop : Stops s tail x L
    · obtain ⟨hword, hmarks, hhead⟩ := h.of_stops hstop
      refine ⟨[], x :: L, [], tail, rfl, rfl, Or.inr rfl, hword, hmarks, fun y hy => ?_⟩
      obtain rfl := Option.some.inj hy
      exact hhead
    · obtain ⟨hword, hmarks⟩ := h.of_not_stops hstop
      obtain ⟨ws, rest, inner, outer, rfl, rfl, hinner, hword', hmarks', hrest⟩ :=
        ih h.2.2.2.2 (s.next x)
      refine ⟨x :: ws, rest, inner, outer, rfl, rfl, hinner, ?_, ?_, hrest⟩
      · rw [hword, hword', Text.ofLexemes_cons]
      · rw [hmarks, hmarks']
        rfl

/-- A word of free text, lexeme by lexeme. -/
theorem Tight.exists_firstWord {tail : Text} {x : Lexeme} {L : List Lexeme}
    (h : Tight tail (x :: L)) (hhit : hit? (x :: L) = none) :
    ∃ ws rest inner outer, L = ws ++ rest ∧ tail = inner ++ outer ∧ (rest = [] ∨ inner = []) ∧
      Text.firstWord (body (x :: L) ++ tail) = body (x :: ws) ++ inner ∧
      Scan.start.marks (x :: L) = (x :: ws).map Mark.free ++ Scan.start.marks rest ∧
      ∀ y ∈ rest.head?, y.gap ≠ [] ∨ (hit? rest).isSome = true := by
  have hend := h.closed_or_nil
  obtain ⟨-, hsound, -, -, hL⟩ := h
  obtain ⟨ws, rest, inner, outer, hws, htail, hinner, hword, hmarks, hrest⟩ :=
    hL.exists_wordTail (Scan.start.next x)
  refine ⟨ws, rest, inner, outer, hws, htail, hinner, ?_, ?_, hrest⟩
  · obtain ⟨c, t, htext, -, -⟩ := hsound.exists_cons
    have htailWord := Text.wordTail_of_sound hsound htext hend 0
    have hsplit : body (x :: L) ++ tail = c :: (t ++ Text.ofLexemes L tail) := by
      simp [body, Text.ofLexemes, htext]
    have hstart : Nesting.start = ⟨.outside, 0⟩ := rfl
    have hnext : Text.wordTail ⟨.outside, x.chunk.depthAfter 0⟩ (x.chunk.closes 0)
        (Text.ofLexemes L tail) = Text.ofLexemes ws inner := hword
    rw [hsplit, Text.firstWord_cons, hstart, htailWord, hnext]
    simp [body, Text.ofLexemes, htext]
  · have hnone : Scan.start.hit? (x :: L) = none := by
      simp [Scan.hit?, Scan.start, hhit]
    rw [Scan.marks_cons_of_none hnone, hmarks]
    rfl

end Lexeme

end SqlLayout
