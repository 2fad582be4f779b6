import SqlLayout.Proofs.Scan.Completeness
import SqlLayout.Proofs.Scan.Overlap

/-!
# Families exclude each other

No two families have a hit at the start of one text.  A symbol begins with no word character, and
all symbols are in one family; a phrase begins with a whole word, and phrases with one first keyword
are in one family.  Within the family the tables are ordered such that the first phrase or symbol
found is the longest.

## Main definitions

* `Hit.IsLongest` : what the hit of a family says about the text at whose start it stands.
* `Keyword.modifierBehind?` : the keyword that is merged with `SELECT`.
* `Hit.ofSelect` : the hit of `SELECT` with what stands behind it.

## Main results

* `Family.eq_of_hit?` : at most one family has a hit.
* `Family.isLongest_of_hit?` : the hit of a family is its longest phrase or symbol.
* `Family.hit?_select` : the hit of `SELECT`, read off the words at the start of a text.
-/

namespace SqlLayout

/-! ### What a text with a hit begins with -/

/-- Where a phrase stands, the first word of the text spells its first keyword. -/
theorem Phrase.ofWord?_of_split? {p : Phrase} {t : Text} {cut : Text × Text}
    (h : p.split? t = some cut) :
    Keyword.ofWord? (t.takeWhile isWordChar) = some p.first := by
  rw [split?, Option.bind_eq_some_iff] at h
  obtain ⟨word, hword, -⟩ := h
  rw [Keyword.split?_eq_ite, Option.ite_none_right_eq_some] at hword
  exact hword.1

namespace Family

theorem mem_table (f : Family) : f ∈ table := by
  cases f <;> decide

theorem eq_comparison_of_mem_symbols {f : Family} {s : Text} (h : s ∈ f.symbols) :
    f = comparison := by
  cases f with
  | comparison => rfl
  | _ => cases h

/-- Where a symbol stands, the text begins with no word. -/
theorem takeWhile_of_isPrefix_symbol {f : Family} {s t : Text} (hs : s ∈ f.symbols)
    (h : s <+: t) : t.takeWhile isWordChar = [] := by
  obtain ⟨rest, rfl⟩ := h
  obtain ⟨c, s, rfl⟩ := List.exists_cons_of_ne_nil (ne_nil_of_mem_symbols hs)
  have hc := (Lexeme.class_of_mem_symbols hs c List.mem_cons_self).2.2
  exact List.takeWhile_cons_of_neg (by simp [hc])

/-- Symbols and phrases do not stand at the start of one text. -/
theorem split?_eq_none_of_symbol {f : Family} {s t : Text} (hs : s ∈ f.symbols) (h : s <+: t)
    (p : Phrase) : p.split? t = none := by
  rw [Option.eq_none_iff_forall_ne_some]
  intro cut hcut
  have hfirst := Phrase.ofWord?_of_split? hcut
  rw [takeWhile_of_isPrefix_symbol hs h] at hfirst
  exact absurd hfirst (by cases p.first <;> decide)

/-- The hit of a family is that of a symbol or a phrase in its tables. -/
theorem exists_of_hit? {f : Family} {t : Text} {h : Hit} (hh : f.hit? t = some h) :
    (∃ s ∈ f.symbols, s <+: t ∧ h = ⟨s, .compare, s⟩) ∨
      ∃ p ∈ f.phrases, (∃ cut, p.split? t = some cut) ∧ h.token = p.token := by
  rcases Option.or_eq_some_iff.1 hh with hs | ⟨-, hp⟩
  · obtain ⟨s, hfind, rfl⟩ := Option.map_eq_some_iff.1 hs
    have hprefix : List.isPrefixOf s t = true := by simpa using List.find?_some hfind
    exact Or.inl ⟨s, List.mem_of_find?_eq_some hfind, List.isPrefixOf_iff_prefix.1 hprefix, rfl⟩
  · obtain ⟨p, hmem, hmap⟩ := List.exists_of_findSome?_eq_some hp
    obtain ⟨cut, hcut, rfl⟩ := Option.map_eq_some_iff.1 hmap
    exact Or.inr ⟨p, hmem, ⟨cut, hcut⟩, rfl⟩

/-- At most one family has a hit at the start of a text. -/
theorem eq_of_hit? {f g : Family} {t : Text} {h h' : Hit} (hf : f.hit? t = some h)
    (hg : g.hit? t = some h') : f = g := by
  rcases exists_of_hit? hf with ⟨s, hs, hst, -⟩ | ⟨p, hp, ⟨cut, hcut⟩, -⟩ <;>
    rcases exists_of_hit? hg with ⟨s', hs', hst', -⟩ | ⟨q, hq, ⟨cut', hcut'⟩, -⟩
  · rw [eq_comparison_of_mem_symbols hs, eq_comparison_of_mem_symbols hs']
  · rw [split?_eq_none_of_symbol hs hst] at hcut'
    cases hcut'
  · rw [split?_eq_none_of_symbol hs' hst'] at hcut
    cases hcut
  · -- both phrases begin with the keyword that the first word of the text spells
    have hfirst := Phrase.ofWord?_of_split? hcut
    rw [Phrase.ofWord?_of_split? hcut'] at hfirst
    exact Phrase.family_eq_of_first_eq hp hq (Option.some.inj hfirst).symm

/-- The hit of a family is the hit at the start of the text, whatever families are tried before. -/
theorem findSome?_hit? {order : List Family} {f : Family} (hmem : f ∈ order) {t : Text} {h : Hit}
    (hf : f.hit? t = some h) : (order.findSome? fun g => g.hit? t) = some h := by
  have hsome : (order.findSome? fun g => g.hit? t).isSome = true :=
    List.findSome?_isSome_iff.2 ⟨f, hmem, by rw [hf]; rfl⟩
  obtain ⟨h', hfirst⟩ := Option.isSome_iff_exists.1 hsome
  obtain ⟨g, -, hg⟩ := List.exists_of_findSome?_eq_some hfirst
  obtain rfl := eq_of_hit? hf hg
  rw [hfirst, ← hg, hf]

end Family

/-! ### The longest phrase or symbol -/

/-- What the hit of a family says about the text at whose start it stands.  There are no quotes in
what was read, so its token has one space for every run of blank characters there.  Behind a phrase
the last word does not go on.  No phrase or symbol of the family that stands at the start of the
text goes beyond what was read. -/
structure Hit.IsLongest (h : Hit) (f : Family) (t : Text) : Prop where
  isPrefix : h.source <+: t
  unquoted : ∀ c ∈ h.source, isQuote c = false
  made : (∃ p ∈ f.phrases, h.token = p.token) ∨ ∃ s ∈ f.symbols, h.token = ⟨.compare, s⟩
  text : h.token.text = h.source.collapse.upper
  boundary : ∀ p ∈ f.phrases, h.token = p.token →
    Keyword.continuesWord (t.drop h.source.length) = false
  phrase : ∀ p ∈ f.phrases, ∀ cut, p.split? t = some cut → cut.1 <+: h.source
  symbol : ∀ s ∈ f.symbols, s <+: t → s <+: h.source

namespace Family

/-- A symbol stands in front of all symbols that it begins with. -/
theorem pairwise_symbols (f : Family) : f.symbols.Pairwise fun s s' => ¬ s <+: s' := by
  cases f <;> decide

/-- No symbol at the start of a text goes beyond the symbol that is found first. -/
theorem isPrefix_of_find?_symbol {f : Family} {s s' t : Text}
    (h : f.symbols.find? (fun s => List.isPrefixOf s t) = some s) (hs' : s' ∈ f.symbols)
    (hst' : s' <+: t) : s' <+: s := by
  obtain ⟨hst, l₁, l₂, heq, hl₁⟩ := List.find?_eq_some_iff_append.1 h
  have hst : s <+: t := List.isPrefixOf_iff_prefix.1 hst
  have hpairwise := pairwise_symbols f
  rw [heq] at hs' hpairwise
  rcases List.mem_append.1 hs' with hs' | hs'
  · have hnot := hl₁ s' hs'
    rw [List.isPrefixOf_iff_prefix.2 hst'] at hnot
    cases hnot
  · rcases List.mem_cons.1 hs' with rfl | hs'
    · exact List.prefix_rfl
    · have hnot := (List.pairwise_cons.1 (List.pairwise_append.1 hpairwise).2.1).1 s' hs'
      exact (List.prefix_or_prefix_of_prefix hst hst').resolve_left hnot

end Family

namespace Lexeme

theorem body_take_isPrefix (L : List Lexeme) (n : Nat) : body (L.take n) <+: body L := by
  by_cases hnil : L.take n = []
  · rw [hnil]
    exact List.nil_prefix
  · refine ⟨Text.ofLexemes (L.drop n) [], ?_⟩
    rw [← body_append _ _ hnil, List.take_append_drop]

end Lexeme

/-- The lexemes that a hit takes, and those behind it. -/
theorem Text.exists_lexemes_of_hit? {t : Text} {h : Hit} (hh : t.hit? = some h) :
    ∃ L rest tail, Lexeme.Tight tail (L ++ rest) ∧ t = Lexeme.body (L ++ rest) ++ tail ∧
      h.source = Lexeme.body L ∧ Lexeme.hit? (L ++ rest) = some (L.length, h.token) := by
  obtain ⟨K, tail, hK, rfl⟩ := exists_tight t
  -- no hit begins with a blank character
  have hgap : Lexeme.firstGap K = [] := by
    cases K with
    | nil => rfl
    | cons x K =>
      cases hx : x.gap with
      | nil => exact hx
      | cons c gap =>
        have hc : isBlank c = true := hK.1 c (by simp [hx])
        have hhas := hasHit_cons_of_isBlank hc (gap ++ (x.chunk.text ++ ofLexemes K tail))
        rw [ofLexemes_cons, hx, List.cons_append] at hh
        rw [hasHit, hh] at hhas
        cases hhas
  have htext : ofLexemes K tail = Lexeme.body K ++ tail := by
    rw [Lexeme.ofLexemes_eq_firstGap_append, hgap, List.nil_append]
  rw [htext, hK.hit?_body, Option.map_eq_some_iff] at hh
  obtain ⟨⟨n, token⟩, hread, rfl⟩ := hh
  have hlen : (K.take n).length = n :=
    List.length_take_of_le (Lexeme.length_of_hit? hread).2
  refine ⟨K.take n, K.drop n, tail, ?_, ?_, rfl, ?_⟩
  · rwa [List.take_append_drop]
  · rw [List.take_append_drop, htext]
  · rw [List.take_append_drop, hlen, hread]

/-- The hit of a family is the longest phrase or symbol of the family at the start of the text. -/
theorem Family.isLongest_of_hit? {f : Family} {t : Text} {h : Hit} (hh : f.hit? t = some h) :
    h.IsLongest f t := by
  obtain ⟨L, rest, tail, hL, rfl, hsource, hhit⟩ :=
    Text.exists_lexemes_of_hit? (findSome?_hit? f.mem_table hh)
  have hne : L ≠ [] := List.length_pos_iff.1 (Lexeme.length_of_hit? hhit).1
  have hdrop : (Lexeme.body (L ++ rest) ++ tail).drop h.source.length =
      Text.ofLexemes rest tail := by
    have happend : Lexeme.body (L ++ rest) ++ tail = Lexeme.body L ++ Text.ofLexemes rest tail := by
      rw [Lexeme.body_append L rest hne, List.append_assoc]
      simp [Text.ofLexemes]
    rw [happend, hsource, List.drop_left]
  refine
    { isPrefix := isPrefix_of_hit? hh
      unquoted := ?unquoted
      made := ?made
      text := ?text
      boundary := ?boundary
      phrase := ?phrase
      symbol := ?symbol }
  case unquoted =>
    rw [hsource]
    exact fun c hc => (hL.left.forall_mem_body (Lexeme.inKeyword_of_hit? hhit) c hc).1
  case made =>
    rcases exists_of_hit? hh with ⟨s, hs, -, rfl⟩ | ⟨p, hp, -, htoken⟩
    · exact Or.inr ⟨s, hs, rfl⟩
    · exact Or.inl ⟨p, hp, htoken⟩
  case text => rw [hsource, hL.left.collapse_body, hL.left.upper_body_of_hit? hhit]
  case boundary =>
    intro p hp htoken
    have htext : h.token.text = p.text := by rw [htoken]; rfl
    rw [hdrop]
    exact hL.continuesWord_right hne (Lexeme.isWord_of_hit?_phrase hp htext hhit)
  case phrase =>
    intro p hp cut hcut
    rw [hL.split?_phrase, Option.ite_none_right_eq_some] at hcut
    obtain ⟨hspells, hcut⟩ := hcut
    have hle := Lexeme.length_le_of_hit? hp hspells hhit
    have hcut := congrArg Prod.fst (Option.some.inj hcut)
    rw [List.take_append_of_le_length hle] at hcut
    rw [← hcut, hsource]
    exact Lexeme.body_take_isPrefix L _
  case symbol =>
    intro s hs hst
    rcases Option.or_eq_some_iff.1 hh with hsymbol | ⟨hnone, -⟩
    · obtain ⟨s', hfind, rfl⟩ := Option.map_eq_some_iff.1 hsymbol
      exact isPrefix_of_find?_symbol hfind hs hst
    · rw [symbolHit?, Option.map_eq_none_iff, List.find?_eq_none] at hnone
      exact absurd (List.isPrefixOf_iff_prefix.2 hst) (hnone s hs)

/-! ### `SELECT` and its modifier -/

/-- The keyword that is merged with `SELECT` in front of a text: the one that the first word behind
blank characters spells, if there are such characters and it is a modifier. -/
def Keyword.modifierBehind? (rest : Text) : Option Keyword :=
  if rest.takeWhile isBlank = [] then none
  else (ofWord? (rest.trimStart.takeWhile isWordChar)).filter (· ∈ modifiers)

/-- The hit of the word `SELECT`, spelled as given, with what stands behind it. -/
def Hit.ofSelect (spelled rest : Text) : Hit :=
  match Keyword.modifierBehind? rest with
  | some m =>
    ⟨spelled ++ rest.takeWhile isBlank ++ rest.trimStart.takeWhile isWordChar,
      Phrase.token ⟨.select, .select, [m]⟩⟩
  | none => ⟨spelled, Phrase.token ⟨.select, .select, []⟩⟩

/-- `SELECT` with one more keyword, read off the first word behind blank characters. -/
theorem Phrase.split?_select_singleton {t spelled rest : Text}
    (h : Keyword.select.split? t = some (spelled, rest)) (k : Keyword) :
    split? ⟨.select, .select, [k]⟩ t =
      if rest.takeWhile isBlank = [] then none
      else if Keyword.ofWord? (rest.trimStart.takeWhile isWordChar) = some k then
        some (spelled ++ rest.takeWhile isBlank ++ rest.trimStart.takeWhile isWordChar,
          rest.trimStart.dropWhile isWordChar)
      else none := by
  rw [split?, h, Option.bind_some, splitOthers?, k.split?_eq_ite]
  simp only [List.isEmpty_iff, splitOthers?]
  split
  · rfl
  · split <;> simp

/-- The first element of a list that is a given one, if there is such an element. -/
theorem findSome?_ite_eq {α β : Type} [DecidableEq α] (l : List α) (o : Option α) (f : α → β) :
    (l.findSome? fun a => if o = some a then some (f a) else none) =
      (o.filter (· ∈ l)).map f := by
  cases o with
  | none => simp
  | some b =>
    induction l with
    | nil => rfl
    | cons a l ih =>
      rw [List.findSome?_cons]
      by_cases h : b = a
      · simp [Option.filter, h]
      · simp only [Option.some.injEq, h, if_false] at ih ⊢
        rw [ih]
        simp [Option.filter, h]

/-- The hit of `SELECT`, read off the words at the start of a text. -/
theorem Family.hit?_select (t : Text) :
    select.hit? t = (Keyword.select.split? t).map fun cut => Hit.ofSelect cut.1 cut.2 := by
  rw [hit?, symbolHit?, phraseHit?, phrases, List.findSome?_append, List.findSome?_map,
    List.findSome?_singleton]
  cases h : Keyword.select.split? t with
  | none => simp [symbols, Phrase.split?, h]
  | some cut =>
    obtain ⟨spelled, rest⟩ := cut
    have hbare : Phrase.split? ⟨.select, .select, []⟩ t = some (spelled, rest) := by
      simp [Phrase.split?, Phrase.splitOthers?, h]
    have hmerged : (Keyword.modifiers.findSome? fun m =>
        (Phrase.split? ⟨.select, .select, [m]⟩ t).map fun cut =>
          Hit.mk cut.1 (Phrase.token ⟨.select, .select, [m]⟩)) =
        (Keyword.modifierBehind? rest).map fun m =>
          ⟨spelled ++ rest.takeWhile isBlank ++ rest.trimStart.takeWhile isWordChar,
            Phrase.token ⟨.select, .select, [m]⟩⟩ := by
      simp only [Phrase.split?_select_singleton h, Keyword.modifierBehind?]
      split
      · simp
      · rw [← findSome?_ite_eq]
        congr 1
        funext m
        split <;> rfl
    rw [Function.comp_def, hmerged, hbare]
    cases hm : Keyword.modifierBehind? rest <;> simp [Hit.ofSelect, hm, symbols]

end SqlLayout
