import SqlLayout.Keyword
import SqlLayout.Token.Basic

/-!
# Phrases

A phrase is one keyword, or several with blank characters between them.  It makes a token of one
kind, whose text is its keywords in upper case with one space between two of them.

## Main definitions

* `Phrase` : a kind with the keywords of its token.
* `Phrase.text`, `Phrase.token` : the token that a phrase makes.
* `Phrase.split?` : a text cut behind a phrase at its start.

## Main results

* `Phrase.append_of_split?` : the cut loses nothing.
-/

namespace SqlLayout

/-- A phrase: the kind of its token, its first keyword, and the keywords behind that. -/
structure Phrase where
  kind : Kind
  first : Keyword
  others : List Keyword
  deriving DecidableEq

namespace Phrase

/-- The keywords of a phrase in order. -/
def keywords (p : Phrase) : List Keyword := p.first :: p.others

/-- The text of a phrase: its keywords in upper case with one space between two of them. -/
def text (p : Phrase) : Text := [' '].intercalate (p.keywords.map Keyword.letters)

/-- The token of a phrase. -/
def token (p : Phrase) : Token := ⟨p.kind, p.text⟩

/-- Cuts a text behind keywords that each have blank characters in front of them. -/
def splitOthers? : List Keyword → Text → Option (Text × Text)
  | [], t => some ([], t)
  | k :: ks, t =>
    let gap := t.takeWhile isBlank
    if gap.isEmpty then none
    else
      (k.split? t.trimStart).bind fun word =>
        (splitOthers? ks word.2).map fun others => (gap ++ word.1 ++ others.1, others.2)

/-- Cuts a text behind the phrase if it starts with it: the part that spells the phrase, and what
follows. -/
def split? (p : Phrase) (t : Text) : Option (Text × Text) :=
  (p.first.split? t).bind fun word =>
    (splitOthers? p.others word.2).map fun others => (word.1 ++ others.1, others.2)

theorem append_of_splitOthers? {ks : List Keyword} {t spelled rest : Text}
    (h : splitOthers? ks t = some (spelled, rest)) : spelled ++ rest = t := by
  induction ks generalizing t spelled with
  | nil => simp_all [splitOthers?]
  | cons k ks ih =>
    simp only [splitOthers?, Option.ite_none_left_eq_some, Option.bind_eq_some_iff,
      Option.map_eq_some_iff] at h
    obtain ⟨-, ⟨word, mid⟩, hword, ⟨others, r⟩, hothers, heq⟩ := h
    obtain ⟨rfl, rfl⟩ := Prod.mk.inj heq
    have hmid : word ++ (others ++ r) = t.trimStart := by
      rw [ih hothers, Keyword.append_of_split? hword]
    simp only [List.append_assoc, hmid, Text.takeWhile_append_trimStart]

/-- The two parts of a cut make up the text. -/
theorem append_of_split? {p : Phrase} {t spelled rest : Text}
    (h : p.split? t = some (spelled, rest)) : spelled ++ rest = t := by
  simp only [split?, Option.bind_eq_some_iff, Option.map_eq_some_iff] at h
  obtain ⟨⟨word, mid⟩, hword, ⟨others, r⟩, hothers, heq⟩ := h
  obtain ⟨rfl, rfl⟩ := Prod.mk.inj heq
  rw [List.append_assoc, append_of_splitOthers? hothers, Keyword.append_of_split? hword]

/-- The part in front of a cut is not empty. -/
theorem ne_nil_of_split? {p : Phrase} {t spelled rest : Text}
    (h : p.split? t = some (spelled, rest)) : spelled ≠ [] := by
  simp only [split?, Option.bind_eq_some_iff, Option.map_eq_some_iff] at h
  obtain ⟨⟨word, mid⟩, hword, ⟨others, r⟩, -, heq⟩ := h
  obtain ⟨rfl, rfl⟩ := Prod.mk.inj heq
  exact List.append_ne_nil_of_left_ne_nil (Keyword.ne_nil_of_split? hword) _

end Phrase

end SqlLayout
