import SqlLayout.Proofs.Scan.FreeWords
import SqlLayout.Proofs.Text.Ends

/-!
# The lexemes of keyword tokens

A keyword token is read from words that spell keywords, or from characters of a comparison symbol
that adjoin each other.  So its lexemes are closed, they change neither quotes nor parentheses, and
in upper case, with one space for each gap, they are the text of the token.

## Main definitions

* `Chunk.InKeyword` : a word that spells a keyword, or a character of a comparison symbol.
* `Lexeme.depthAfter` : the number of open parentheses behind lexemes.

## Main results

* `Lexeme.inKeyword_of_hit?` : what a hit takes is part of keyword tokens.
* `Lexeme.Tight.upper_body_of_hit?` : what a hit takes spells the text of its token.
* `Lexeme.Tight.nesting_after` : quotes and parentheses behind lexemes.
-/

namespace SqlLayout

/-! ### What a hit takes -/

namespace Chunk

/-- A chunk as there are in keyword tokens: a word that spells a keyword, or a character of a
comparison symbol. -/
def InKeyword : Chunk → Prop
  | word letters => (Keyword.ofWord? letters).isSome = true
  | other c => c ∈ "<>=!".toList
  | _ => False

theorem InKeyword.depthAfter {chunk : Chunk} (h : chunk.InKeyword) (d : Nat) :
    chunk.depthAfter d = d := by
  cases chunk with
  | other c =>
    have hc : c ≠ '(' ∧ c ≠ ')' := by
      have key : ("<>=!".toList.all fun b => b != '(' && b != ')') = true := by decide
      simpa using List.all_eq_true.1 key c h
    simp [Chunk.depthAfter, Nesting.depthAfter, hc]
  | _ => rfl

theorem InKeyword.closed {chunk : Chunk} (h : chunk.InKeyword) (hsound : chunk.Sound) :
    chunk.Closed :=
  hsound.closed_or_quoted.resolve_right fun ⟨region, heq⟩ => by
    rw [heq] at h
    exact h

/-- No quote and no parenthesis occurs in keyword tokens. -/
theorem InKeyword.forall_mem_text {chunk : Chunk} (h : chunk.InKeyword) (hsound : chunk.Sound) :
    ∀ c ∈ chunk.text, isQuote c = false ∧ c ≠ '(' ∧ c ≠ ')' := by
  intro c hc
  cases chunk with
  | word letters =>
    have hword : isWordChar c = true := hsound.2 c hc
    refine ⟨isQuote_of_isWordChar hword, ?_, ?_⟩ <;>
    · rintro rfl
      exact absurd hword (by decide)
  | other b =>
    have key : ("<>=!".toList.all fun b => !isQuote b && (b != '(' && b != ')')) = true := by decide
    rw [List.mem_singleton.1 hc]
    simpa using List.all_eq_true.1 key b h
  | _ => exact h.elim

end Chunk

namespace Lexeme

theorem isSome_keyword?_of_spells {ks : List Keyword} {L : List Lexeme} (h : spells ks L = true)
    (hlen : L.length = ks.length) : ∀ x ∈ L, x.keyword?.isSome = true := by
  induction ks generalizing L with
  | nil =>
    rw [List.length_eq_zero_iff.1 hlen]
    exact List.forall_mem_nil _
  | cons k ks ih =>
    obtain ⟨x, L, rfl⟩ := List.exists_cons_of_length_eq_add_one hlen
    rw [spells_cons_cons, Bool.and_eq_true, beq_iff_eq] at h
    refine List.forall_mem_cons.2 ⟨?_, ih h.2 (Nat.succ.inj hlen)⟩
    rw [h.1]
    rfl

theorem isWord_of_spells {ks : List Keyword} {L : List Lexeme} (h : spells ks L = true)
    (hlen : L.length = ks.length) : ∀ x ∈ L, x.chunk.isWord = true := by
  intro x hx
  obtain ⟨k, hk⟩ := Option.isSome_iff_exists.1 (isSome_keyword?_of_spells h hlen x hx)
  exact isWord_of_keyword? hk

theorem inKeyword_of_isSome_keyword? {x : Lexeme} (h : x.keyword?.isSome = true) :
    x.chunk.InKeyword := by
  unfold keyword? at h
  split at h
  · rename_i letters hx
    rw [hx]
    exact h
  · cases h

theorem exists_other_of_adjoins {s : Text} {L : List Lexeme} (h : adjoins s L = true)
    (hlen : L.length = s.length) : ∀ x ∈ L, ∃ c ∈ s, x.chunk = .other c := by
  induction s generalizing L with
  | nil =>
    rw [List.length_eq_zero_iff.1 hlen]
    exact List.forall_mem_nil _
  | cons c s ih =>
    obtain ⟨x, L, rfl⟩ := List.exists_cons_of_length_eq_add_one hlen
    simp only [adjoins, Bool.and_eq_true, beq_iff_eq] at h
    refine List.forall_mem_cons.2 ⟨⟨c, List.mem_cons_self, h.1.2⟩, fun y hy => ?_⟩
    obtain ⟨b, hb, hy⟩ := ih h.2 (Nat.succ.inj hlen) y hy
    exact ⟨b, List.mem_cons_of_mem c hb, hy⟩

theorem spells_append {ks : List Keyword} {L rest : List Lexeme} (hlen : L.length = ks.length) :
    spells ks (L ++ rest) = spells ks L := by
  induction ks generalizing L with
  | nil => rfl
  | cons k ks ih =>
    obtain ⟨x, L, rfl⟩ := List.exists_cons_of_length_eq_add_one hlen
    rw [List.cons_append, spells_cons_cons, spells_cons_cons, ih (Nat.succ.inj hlen)]

theorem adjoins_append {s : Text} {L rest : List Lexeme} (hlen : L.length = s.length) :
    adjoins s (L ++ rest) = adjoins s L := by
  induction s generalizing L with
  | nil => cases L <;> rfl
  | cons c s ih =>
    obtain ⟨x, L, rfl⟩ := List.exists_cons_of_length_eq_add_one hlen
    rw [List.cons_append, adjoins, adjoins, ih (Nat.succ.inj hlen)]

theorem bare_append {L : List Lexeme} (h : L ≠ []) (rest : List Lexeme) :
    bare (L ++ rest) = bare L ++ rest := by
  cases L with
  | nil => exact absurd rfl h
  | cons x L => rfl

@[simp] theorem length_bare (L : List Lexeme) : (bare L).length = L.length := by
  cases L <;> rfl

/-- A hit that takes given lexemes is that of a symbol or a phrase, which they spell. -/
theorem exists_of_hit?_append {L rest : List Lexeme} {token : Token}
    (h : hit? (L ++ rest) = some (L.length, token)) :
    (∃ s ∈ Family.comparison.symbols, adjoins s (bare L) = true ∧ L.length = s.length ∧
      token = ⟨.compare, s⟩) ∨
    ∃ f : Family, ∃ p ∈ f.phrases, spells p.keywords L = true ∧ L.length = p.keywords.length ∧
      token = p.token := by
  rcases exists_of_hit? h with ⟨s, hs, hadjoins, hlen, rfl⟩ | ⟨f, p, hp, hspells, hlen, rfl⟩
  · have hne : L ≠ [] := List.length_pos_iff.1 (length_of_hit? h).1
    rw [bare_append hne, adjoins_append (by rw [length_bare, hlen])] at hadjoins
    exact Or.inl ⟨s, hs, hadjoins, hlen, rfl⟩
  · rw [spells_append hlen] at hspells
    exact Or.inr ⟨f, p, hp, hspells, hlen, rfl⟩

/-- What a hit takes is part of keyword tokens. -/
theorem inKeyword_of_hit? {L rest : List Lexeme} {token : Token}
    (h : hit? (L ++ rest) = some (L.length, token)) : ∀ x ∈ L, x.chunk.InKeyword := by
  rcases exists_of_hit?_append h with ⟨s, hs, hadjoins, hlen, -⟩ | ⟨f, p, -, hspells, hlen, -⟩
  · have key : ∀ s ∈ Family.comparison.symbols, s ⊆ "<>=!".toList := by decide
    have hbare : ∀ y ∈ bare L, y.chunk.InKeyword := by
      intro y hy
      obtain ⟨c, hc, hchunk⟩ := exists_other_of_adjoins hadjoins (by rw [length_bare, hlen]) y hy
      rw [hchunk]
      exact key s hs hc
    intro x hx
    cases L with
    | nil => cases hx
    | cons y L =>
      rcases List.mem_cons.1 hx with rfl | hx
      · exact hbare ⟨[], x.chunk⟩ List.mem_cons_self
      · exact hbare x (List.mem_cons_of_mem _ hx)
  · exact fun x hx => inKeyword_of_isSome_keyword? (isSome_keyword?_of_spells hspells hlen x hx)

/-- What a hit takes is closed. -/
theorem Tight.closed_of_hit? {tail : Text} {L rest : List Lexeme} {token : Token}
    (h : Tight tail L) (hhit : hit? (L ++ rest) = some (L.length, token)) :
    ∀ x ∈ L, x.chunk.Closed :=
  fun x hx => (inKeyword_of_hit? hhit x hx).closed (h.sound x hx)

/-! ### The text of a keyword token -/

theorem adjoins_map_plain {s : Text} {L : List Lexeme} :
    adjoins s (L.map plain) = adjoins s L := by
  induction s generalizing L with
  | nil => rfl
  | cons c s ih =>
    cases L with
    | nil => rfl
    | cons x L =>
      have hgap : x.plain.gap.isEmpty = x.gap.isEmpty := by
        rw [Bool.eq_iff_iff, List.isEmpty_iff, List.isEmpty_iff, plain_gap_eq_nil_iff]
      rw [List.map_cons, adjoins, adjoins, ih, hgap, plain_chunk]

theorem bare_map_plain (L : List Lexeme) : bare (L.map plain) = (bare L).map plain := by
  cases L <;> rfl

/-- Words that spell keywords, with one space for each gap between them. -/
theorem Tight.upper_body_of_spells {ks : List Keyword} {L : List Lexeme} (h : Tight [] L)
    (hspells : spells ks L = true) (hlen : L.length = ks.length) :
    (body (L.map plain)).upper = [' '].intercalate (ks.map Keyword.letters) := by
  induction ks generalizing L with
  | nil =>
    rw [List.length_eq_zero_iff.1 hlen]
    rfl
  | cons k ks ih =>
    obtain ⟨x, L, rfl⟩ := List.exists_cons_of_length_eq_add_one hlen
    have hwords := isWord_of_spells hspells hlen
    rw [spells_cons_cons, Bool.and_eq_true, beq_iff_eq] at hspells
    obtain ⟨hk, hspells⟩ := hspells
    have hlen : L.length = ks.length := Nat.succ.inj hlen
    have hx : x.chunk.text.upper = k.letters := by
      unfold keyword? at hk
      split at hk
      · rename_i letters hchunk
        rw [hchunk]
        exact Keyword.ofWord?_eq_some_iff.1 hk
      · cases hk
    have ih := ih h.2.2.2.2 hspells hlen
    cases ks with
    | nil =>
      rw [List.length_eq_zero_iff.1 hlen]
      simp [body, hx]
    | cons k' ks =>
      obtain ⟨y, L, rfl⟩ := List.exists_cons_of_length_eq_add_one hlen
      have hgap : y.plain.gap = [' '] := by
        have hne : y.gap ≠ [] := h.2.2.2.1 (hwords x (by simp)) (hwords y (by simp))
        simp [plain, hne]
      simp only [List.map_cons] at ih ⊢
      rw [body_cons_cons, Text.upper_append, Text.upper_append, ih, hgap,
        List.intercalate_cons_cons, ← hx]
      rfl

/-- What a hit takes, in upper case and with one space for each gap, is the text of its token. -/
theorem Tight.upper_body_of_hit? {L rest : List Lexeme} {token : Token} (hL : Tight [] L)
    (h : hit? (L ++ rest) = some (L.length, token)) :
    (body (L.map plain)).upper = token.text := by
  rcases exists_of_hit?_append h with
    ⟨s, hs, hadjoins, hlen, rfl⟩ | ⟨f, p, -, hspells, hlen, rfl⟩
  · have key : ∀ s ∈ Family.comparison.symbols, s.upper = s := by decide
    have hbody : body (L.map plain) = s := by
      have hplain : adjoins s (Lexeme.bare (L.map plain)) = true := by
        rw [bare_map_plain, adjoins_map_plain, hadjoins]
      have htake := body_take_of_adjoins hplain
      rwa [← hlen, ← List.length_map plain, List.take_length] at htake
    rw [hbody]
    exact key s hs
  · exact hL.upper_body_of_spells hspells hlen

/-- No hit makes a token of free text. -/
theorem kind_ne_str_of_hit? {L : List Lexeme} {n : Nat} {token : Token}
    (h : hit? L = some (n, token)) : token.kind ≠ .str := by
  rcases exists_of_hit? h with ⟨s, -, -, -, rfl⟩ | ⟨f, p, hp, -, -, rfl⟩
  · nofun
  · have key : ∀ f : Family, ∀ p ∈ f.phrases, p.kind ≠ .str := by
      intro f
      cases f <;> decide
    exact key f p hp

/-! ### Quotes and parentheses behind lexemes -/

/-- The number of open parentheses behind lexemes. -/
def depthAfter (d : Nat) (L : List Lexeme) : Nat := L.foldl (fun d x => x.chunk.depthAfter d) d

@[simp] theorem depthAfter_nil (d : Nat) : depthAfter d [] = d := rfl

@[simp] theorem depthAfter_cons (d : Nat) (x : Lexeme) (L : List Lexeme) :
    depthAfter d (x :: L) = depthAfter (x.chunk.depthAfter d) L := rfl

theorem depthAfter_append (d : Nat) (L M : List Lexeme) :
    depthAfter d (L ++ M) = depthAfter (depthAfter d L) M :=
  List.foldl_append

theorem depthAfter_of_inKeyword {L : List Lexeme} (h : ∀ x ∈ L, x.chunk.InKeyword) (d : Nat) :
    depthAfter d L = d := by
  induction L with
  | nil => rfl
  | cons x L ih =>
    rw [depthAfter_cons, (h x List.mem_cons_self).depthAfter]
    exact ih fun y hy => h y (List.mem_cons_of_mem x hy)

/-- Quotes and parentheses behind lexemes that are closed. -/
theorem Tight.nesting_after {tail : Text} {L : List Lexeme} (h : Tight tail L)
    (hclosed : ∀ x ∈ L, x.chunk.Closed) (d : Nat) :
    (⟨.outside, d⟩ : Nesting).after (Text.ofLexemes L []) = ⟨.outside, depthAfter d L⟩ := by
  induction L generalizing d with
  | nil => rfl
  | cons x L ih =>
    have hx : Quoting.outside.after x.chunk.text = .outside := hclosed x List.mem_cons_self
    rw [Text.ofLexemes_cons, Nesting.after_append, Nesting.after_of_isBlank h.1,
      Nesting.after_append, h.2.1.nesting_after, hx,
      ih h.2.2.2.2 fun y hy => hclosed y (List.mem_cons_of_mem x hy)]
    rfl

/-- Quotes and parentheses in front of the chunk of a lexeme. -/
theorem Tight.nesting_in_front {tail : Text} {P Q : List Lexeme} {z : Lexeme}
    (h : Tight tail (P ++ z :: Q)) :
    Nesting.start.after (Text.ofLexemes P [] ++ z.gap) = ⟨.outside, depthAfter 0 P⟩ := by
  rw [Nesting.after_append, Nesting.start,
    h.left.nesting_after (h.closed_left (List.cons_ne_nil z Q)), Nesting.after_of_isBlank h.right.1]

end Lexeme

end SqlLayout
