import SqlLayout.Phrase

/-!
# Families of phrases and symbols

Phrases and comparison symbols come in families.  Within a family the longer phrases and symbols
stand first, so that the first one found at the start of a text is the longest.

## Main definitions

* `Family` : the families, listed by `Family.table`.
* `Family.phrases`, `Family.symbols` : the members of a family.
* `Hit` : the token at the start of a text, with the part of the text it was read from.
* `Family.hit?`, `Text.hit?` : the hit of one family, and of the first family that has one.
* `Text.hitIn?` : the hit of the first family in a given order that has one.

## Main results

* `Text.isPrefix_of_hit?` : what is found stands at the start of the text.
-/

namespace SqlLayout

/-- The families of phrases and symbols, in the order in which they are tried. -/
inductive Family where
  | select
  | join
  | order
  | clause
  | comparison
  | conjunction
  deriving DecidableEq

namespace Family

/-- Every family once, in the order in which they are tried. -/
def table : List Family := [select, join, order, clause, comparison, conjunction]

/-- The phrases of a family in the order in which they are tried. -/
def phrases : Family → List Phrase
  | select => Keyword.modifiers.map (⟨.select, .select, [·]⟩) ++ [⟨.select, .select, []⟩]
  | join =>
    [⟨.join, .left, [.outer, .join]⟩, ⟨.join, .right, [.outer, .join]⟩,
      ⟨.join, .full, [.outer, .join]⟩, ⟨.join, .inner, [.join]⟩, ⟨.join, .left, [.join]⟩,
      ⟨.join, .right, [.join]⟩, ⟨.join, .join, []⟩]
  | order => [⟨.order, .order, [.by]⟩]
  | clause =>
    [⟨.from, .from, []⟩, ⟨.on, .on, []⟩, ⟨.where, .where, []⟩, ⟨.group, .group, [.by]⟩,
      ⟨.having, .having, []⟩, ⟨.limit, .limit, []⟩, ⟨.offset, .offset, []⟩]
  | comparison =>
    [⟨.compare, .not, [.like, .binary]⟩, ⟨.compare, .not, [.like]⟩,
      ⟨.compare, .like, [.binary]⟩, ⟨.compare, .like, []⟩]
  | conjunction => [⟨.and, .and, []⟩, ⟨.or, .or, []⟩, ⟨.in, .in, []⟩]

/-- The symbols of a family in the order in which they are tried.  All of them compare. -/
def symbols : Family → List Text
  | comparison => ["<=>", "!=", "<>", "<=", ">=", "=", "<", ">"].map String.toList
  | _ => []

end Family

/-- Whether a text starts with a comparison symbol. -/
def Text.startsSymbol (t : Text) : Bool :=
  Family.comparison.symbols.any fun s => List.isPrefixOf s t

/-! ### Hits -/

/-- What was found at the start of a text: the part that was read, and the token it makes. -/
structure Hit where
  source : Text
  token : Token
  deriving DecidableEq

namespace Family

/-- The hit of a symbol at the start of a text. -/
def symbolHit? (f : Family) (t : Text) : Option Hit :=
  (f.symbols.find? fun s => List.isPrefixOf s t).map fun s => ⟨s, .compare, s⟩

/-- The hit of a phrase at the start of a text. -/
def phraseHit? (f : Family) (t : Text) : Option Hit :=
  f.phrases.findSome? fun p => (p.split? t).map fun cut => ⟨cut.1, p.token⟩

/-- The hit of a family at the start of a text. -/
def hit? (f : Family) (t : Text) : Option Hit := (f.symbolHit? t).or (f.phraseHit? t)

end Family

/-- The hit at the start of a text: that of the first family in a given order which has one. -/
def Text.hitIn? (order : List Family) (t : Text) : Option Hit := order.findSome? fun f => f.hit? t

/-- The hit at the start of a text. -/
def Text.hit? (t : Text) : Option Hit := t.hitIn? Family.table

theorem Text.hit?_eq (t : Text) : t.hit? = Family.table.findSome? fun f => f.hit? t := rfl

/-- Whether a phrase or a symbol stands at the start of a text. -/
def Text.hasHit (t : Text) : Bool := t.hit?.isSome

/-- What a family finds stands at the start of the text. -/
theorem Family.isPrefix_of_hit? {f : Family} {t : Text} {h : Hit} (hh : f.hit? t = some h) :
    h.source <+: t := by
  rcases Option.or_eq_some_iff.1 hh with hs | ⟨-, hp⟩
  · obtain ⟨s, hfind, rfl⟩ := Option.map_eq_some_iff.1 hs
    have hpre : List.isPrefixOf s t = true := by simpa using List.find?_some hfind
    exact List.isPrefixOf_iff_prefix.1 hpre
  · obtain ⟨p, -, hmap⟩ := List.exists_of_findSome?_eq_some hp
    obtain ⟨⟨spelled, rest⟩, hcut, rfl⟩ := Option.map_eq_some_iff.1 hmap
    exact ⟨rest, Phrase.append_of_split? hcut⟩

/-- What is found stands at the start of the text. -/
theorem Text.isPrefix_of_hit? {t : Text} {h : Hit} (hh : t.hit? = some h) : h.source <+: t := by
  obtain ⟨f, -, hf⟩ := List.exists_of_findSome?_eq_some hh
  exact f.isPrefix_of_hit? hf

theorem Family.ne_nil_of_mem_symbols {f : Family} {s : Text} (hs : s ∈ f.symbols) : s ≠ [] := by
  rintro rfl
  cases f <;> exact absurd hs (by decide)

/-- What a family finds is not empty. -/
theorem Family.source_ne_nil_of_hit? {f : Family} {t : Text} {h : Hit}
    (hh : f.hit? t = some h) : h.source ≠ [] := by
  rcases Option.or_eq_some_iff.1 hh with hs | ⟨-, hp⟩
  · obtain ⟨s, hfind, rfl⟩ := Option.map_eq_some_iff.1 hs
    exact ne_nil_of_mem_symbols (List.mem_of_find?_eq_some hfind)
  · obtain ⟨p, -, hmap⟩ := List.exists_of_findSome?_eq_some hp
    obtain ⟨⟨spelled, rest⟩, hcut, rfl⟩ := Option.map_eq_some_iff.1 hmap
    exact Phrase.ne_nil_of_split? hcut

/-- What is found is not empty. -/
theorem Text.source_ne_nil_of_hit? {t : Text} {h : Hit} (hh : t.hit? = some h) : h.source ≠ [] := by
  obtain ⟨f, -, hf⟩ := List.exists_of_findSome?_eq_some hh
  exact f.source_ne_nil_of_hit? hf

end SqlLayout
