import Mathlib.Data.List.Infix
import SqlLayout.Proofs.Scan.Gaps

/-!
# Phrases that overlap

A hit is the longest phrase at the start of lexemes.  Inside a phrase another hit can begin, as that
of `JOIN` does inside `LEFT JOIN`.  It has the kind of the whole phrase and ends where the phrase
ends, so no phrase ends in the middle of another one.

## Main definitions

* `Phrase.overlaps` : a phrase can begin inside another one.
* `Phrase.EndsWith` : it ends with the other phrase, and has its kind.

## Main results

* `Lexeme.length_le_of_hit?` : no phrase at the start of lexemes is longer than the hit there.
* `Lexeme.hit?_drop` : hits that begin inside a phrase end with it.
-/

namespace SqlLayout

namespace Phrase

/-- Two phrases can stand in one text such that the second begins behind `k` keywords of the
first. -/
def overlaps (p q : Phrase) (k : Nat) : Bool :=
  (p.keywords.drop k).isPrefixOf q.keywords || q.keywords.isPrefixOf (p.keywords.drop k)

/-- A phrase that begins behind `k` keywords of another one ends with it, and has its kind. -/
def EndsWith (p q : Phrase) (k : Nat) : Prop :=
  q.keywords.length + k = p.keywords.length ∧ q.kind = p.kind

instance (p q : Phrase) (k : Nat) : Decidable (EndsWith p q k) :=
  inferInstanceAs (Decidable (_ ∧ _))

/-- Phrases with one first keyword belong to one family. -/
theorem family_eq_of_first_eq {f g : Family} {p q : Phrase} (hp : p ∈ f.phrases)
    (hq : q ∈ g.phrases) (h : p.first = q.first) : f = g := by
  have key : ∀ f g : Family, ∀ p ∈ f.phrases, ∀ q ∈ g.phrases, p.first = q.first → f = g := by
    intro f g
    cases f <;> cases g <;> decide
  exact key f g p hp q hq h

/-- Within a family a phrase stands in front of all shorter phrases that it begins with. -/
theorem pairwise_phrases (f : Family) : f.phrases.Pairwise fun p q =>
    overlaps p q 0 = true → q.keywords.length ≤ p.keywords.length := by
  cases f <;> decide

theorem length_keywords_le {f : Family} {p : Phrase} (hp : p ∈ f.phrases) :
    p.keywords.length ≤ 3 := by
  have key : ∀ f : Family, ∀ p ∈ f.phrases, p.keywords.length ≤ 3 := by
    intro f
    cases f <;> decide
  exact key f p hp

/-- A phrase that begins inside another one ends with it, but for phrases of which a longer one
stands at the same place. -/
theorem endsWith_or_of_overlaps {f g : Family} {p q : Phrase} (hp : p ∈ f.phrases)
    (hq : q ∈ g.phrases) {k : Nat} (hpos : 0 < k) (hk : k < p.keywords.length)
    (h : overlaps p q k = true) :
    EndsWith p q k ∨ (p.keywords = [.not, .like] ∧ q.keywords = [.like, .binary] ∧ k = 1) ∨
      (p.keywords = [.not, .like, .binary] ∧ q.keywords = [.like] ∧ k = 1) := by
  have key : ∀ f g : Family, ∀ p ∈ f.phrases, ∀ q ∈ g.phrases, ∀ k ∈ [1, 2],
      k < p.keywords.length → overlaps p q k = true →
      EndsWith p q k ∨ (p.keywords = [.not, .like] ∧ q.keywords = [.like, .binary] ∧ k = 1) ∨
        (p.keywords = [.not, .like, .binary] ∧ q.keywords = [.like] ∧ k = 1) := by
    intro f g
    cases f <;> cases g <;> decide +kernel
  have hmem : k ∈ [1, 2] := by
    have hle := length_keywords_le hp
    simp only [List.mem_cons, List.not_mem_nil, or_false]
    omega
  exact key f g p hp q hq k hmem hk h

end Phrase

namespace Lexeme

theorem spells_iff_isPrefix {ks : List Keyword} {L : List Lexeme} :
    spells ks L = true ↔ ks.map some <+: L.map keyword? :=
  List.isPrefixOf_iff_prefix

theorem spells_drop {ks : List Keyword} {L : List Lexeme} (h : spells ks L = true) (k : Nat) :
    spells (ks.drop k) (L.drop k) = true := by
  rw [spells_iff_isPrefix] at h ⊢
  rw [List.map_drop, List.map_drop]
  exact h.drop k

theorem prefix_of_map_some {α : Type} {l m : List α} (h : l.map some <+: m.map some) : l <+: m := by
  obtain ⟨l', hl', heq⟩ := List.prefix_map_iff.1 h
  rwa [List.map_injective_iff.2 (fun _ _ => Option.some.inj) heq]

theorem overlaps_of_spells {p q : Phrase} {L : List Lexeme} {k : Nat}
    (hp : spells p.keywords L = true) (hq : spells q.keywords (L.drop k) = true) :
    p.overlaps q k = true := by
  have hp := spells_iff_isPrefix.1 (spells_drop hp k)
  have hq := spells_iff_isPrefix.1 hq
  rw [Phrase.overlaps, Bool.or_eq_true, List.isPrefixOf_iff_prefix, List.isPrefixOf_iff_prefix]
  rcases List.prefix_or_prefix_of_prefix hp hq with h | h
  · exact Or.inl (prefix_of_map_some h)
  · exact Or.inr (prefix_of_map_some h)

/-- Where a phrase is spelled a word begins. -/
theorem exists_cons_of_spells {k : Keyword} {ks : List Keyword} {L : List Lexeme}
    (h : spells (k :: ks) L = true) :
    ∃ x M, L = x :: M ∧ x.keyword? = some k ∧ x.chunk.isWord = true := by
  cases L with
  | nil => cases h
  | cons x M =>
    rw [spells_cons_cons, Bool.and_eq_true, beq_iff_eq] at h
    exact ⟨x, M, rfl, h.1, isWord_of_keyword? h.1⟩

/-- Where a word begins the hit is that of a phrase, and no phrase in front of it in its family is
spelled. -/
theorem exists_of_hit?_of_isWord {x : Lexeme} {L : List Lexeme} (hx : x.chunk.isWord = true)
    {n : Nat} {token : Token} (h : hit? (x :: L) = some (n, token)) :
    ∃ (f : Family) (l₁ l₂ : List Phrase) (p : Phrase), f.phrases = l₁ ++ p :: l₂ ∧
      spells p.keywords (x :: L) = true ∧ n = p.keywords.length ∧ token = p.token ∧
      ∀ q ∈ l₁, spells q.keywords (x :: L) = false := by
  obtain ⟨f, -, hf⟩ := List.exists_of_findSome?_eq_some h
  rw [Family.read?, symbolRead?_of_isWord hx, Option.none_or, Family.phraseRead?,
    List.findSome?_eq_some_iff] at hf
  obtain ⟨l₁, p, l₂, heq, hp, hl₁⟩ := hf
  rw [Option.ite_none_right_eq_some] at hp
  obtain ⟨hspells, hp⟩ := hp
  obtain ⟨hn, htoken⟩ := Prod.mk.inj (Option.some.inj hp)
  refine ⟨f, l₁, l₂, p, heq, hspells, hn.symm, htoken.symm, fun q hq => ?_⟩
  simpa using hl₁ q hq

/-- No phrase at the start of lexemes is longer than the hit there. -/
theorem length_le_of_hit? {L : List Lexeme} {f : Family} {p : Phrase} (hp : p ∈ f.phrases)
    (hspells : spells p.keywords L = true) {n : Nat} {token : Token}
    (h : hit? L = some (n, token)) : p.keywords.length ≤ n := by
  obtain ⟨x, M, rfl, hfirst, hword⟩ := exists_cons_of_spells hspells
  obtain ⟨g, l₁, l₂, q, heq, hq, rfl, -, hl₁⟩ := exists_of_hit?_of_isWord hword h
  have hmem : q ∈ g.phrases := by simp [heq]
  obtain ⟨y, N, hcons, hfirst', -⟩ := exists_cons_of_spells hq
  obtain ⟨rfl, rfl⟩ := List.cons.inj hcons
  rw [hfirst] at hfirst'
  obtain rfl := Phrase.family_eq_of_first_eq hp hmem (Option.some.inj hfirst')
  have hpairwise := Phrase.pairwise_phrases f
  rw [heq] at hp hpairwise
  rcases List.mem_append.1 hp with hp | hp
  · rw [hl₁ p hp] at hspells
    cases hspells
  · rcases List.mem_cons.1 hp with rfl | hp
    · exact Nat.le_refl _
    · have hq := (List.pairwise_cons.1 (List.pairwise_append.1 hpairwise).2.1).1 p hp
      exact hq (overlaps_of_spells (k := 0) ‹_› hspells)

/-- A hit that begins inside a phrase ends with it, and has its kind. -/
theorem hit?_drop {L : List Lexeme} {f : Family} {p : Phrase} (hp : p ∈ f.phrases)
    (hspells : spells p.keywords L = true) (h : hit? L = some (p.keywords.length, p.token))
    {k : Nat} (hpos : 0 < k) (hk : k < p.keywords.length) {n : Nat} {token : Token}
    (hdrop : hit? (L.drop k) = some (n, token)) :
    n + k = p.keywords.length ∧ token.kind = p.kind := by
  have hrest := spells_drop hspells k
  obtain ⟨k', ks, hks⟩ := List.exists_cons_of_length_pos (l := p.keywords.drop k) (by
    rw [List.length_drop]
    omega)
  rw [hks] at hrest
  obtain ⟨x, M, hM, -, hword⟩ := exists_cons_of_spells hrest
  have hdrop' := hdrop
  rw [hM] at hdrop'
  obtain ⟨g, l₁, l₂, q, heq, hq, rfl, rfl, -⟩ := exists_of_hit?_of_isWord hword hdrop'
  rw [← hM] at hq
  have hmem : q ∈ g.phrases := by simp [heq]
  rcases Phrase.endsWith_or_of_overlaps hp hmem hpos hk (overlaps_of_spells hspells hq) with
    hends | ⟨hkeywords, hkeywords', rfl⟩ | ⟨hkeywords, hkeywords', rfl⟩
  · exact hends
  · -- `NOT LIKE BINARY` is spelled, and longer than `NOT LIKE`
    have hlonger : spells [.not, .like, .binary] L = true := by
      rw [hkeywords] at hspells
      rw [hkeywords'] at hq
      obtain ⟨y, N, rfl, hy, -⟩ := exists_cons_of_spells hspells
      rw [spells_cons_cons, hy, List.drop_succ_cons, List.drop_zero] at *
      simpa using hq
    have hle := length_le_of_hit? (f := .comparison) (p := ⟨.compare, .not, [.like, .binary]⟩)
      (by decide) hlonger h
    rw [hkeywords] at hle
    exact absurd hle (by decide)
  · -- `LIKE BINARY` is spelled, and longer than `LIKE`
    have hlonger : spells [.like, .binary] (L.drop 1) = true := by
      have hdropped := spells_drop hspells 1
      rwa [hkeywords] at hdropped
    have hle := length_le_of_hit? (f := .comparison) (p := ⟨.compare, .like, [.binary]⟩)
      (by decide) hlonger hdrop
    rw [hkeywords'] at hle
    exact absurd hle (by decide)

end Lexeme

end SqlLayout
