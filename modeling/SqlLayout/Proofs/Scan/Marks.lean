import SqlLayout.Proofs.Scan.Hits

/-!
# Scans of lexemes

A scan goes through lexemes from left to right and looks for a hit at the top level, wherever a
lexeme has a gap in front of it, begins with a symbol, or follows the start of the text, a keyword
token, or a lexeme that closes.  Lexemes without a hit are free; they are the free text of tokens.
In contrast to the segments of a text, words of free text play no part.

## Main definitions

* `Scan` : where a scan stands; `Scan.hit?` is the hit that it finds there.
* `Mark` : what a scan makes of lexemes: a free lexeme, or the lexemes of a keyword token.
* `Scan.marks` : the marks of lexemes.
* `Scan.Valid` : marks that agree with the hits which the scan finds on its way.

## Main results

* `Scan.valid_marks`, `Scan.flatMap_source_marks` : the marks of lexemes are valid, and lose
  nothing.
* `Scan.Valid.marks_eq` : lexemes have only one list of valid marks.
-/

namespace SqlLayout

namespace Chunk

/-- The number of open parentheses behind a chunk. -/
def depthAfter (depth : Nat) : Chunk → Nat
  | other c => Nesting.depthAfter depth c
  | _ => depth

/-- Whether a chunk ends a quoted region at the top level, or is a closing parenthesis behind which
the top level is reached. -/
def closes (depth : Nat) : Chunk → Bool
  | quoted _ => depth == 0
  | other c => c == ')' && Nesting.depthAfter depth c == 0
  | _ => false

end Chunk

/-- Whether lexemes begin with a comparison symbol. -/
def Lexeme.startsSymbol (L : List Lexeme) : Bool :=
  Family.comparison.symbols.any fun s => adjoins s (bare L)

/-- Where a scan of lexemes stands: the number of open parentheses, and whether a hit is looked for
at the next lexeme even if it has no gap. -/
structure Scan where
  depth : Nat
  ready : Bool
  deriving DecidableEq

/-- What a scan makes of lexemes: one that is free text, or the lexemes of a keyword token. -/
inductive Mark where
  | free (x : Lexeme)
  | keyword (source : List Lexeme) (token : Token)

/-- The lexemes of a mark. -/
def Mark.source : Mark → List Lexeme
  | free x => [x]
  | keyword source _ => source

namespace Mark

/-- Free lexemes in front of marks that begin with one more. -/
theorem append_flatMap_source_free (run : List Lexeme) (x : Lexeme) (M : List Mark) :
    run ++ (free x :: M).flatMap source = run ++ [x] ++ M.flatMap source := by
  rw [List.append_assoc]
  rfl

/-- Marks whose lexemes are replaced one by one. -/
theorem flatMap_source_map {f : Mark → Mark} {g : Lexeme → Lexeme}
    (h : ∀ m : Mark, (f m).source = m.source.map g) (M : List Mark) :
    (M.map f).flatMap source = (M.flatMap source).map g := by
  rw [List.flatMap_map, List.map_flatMap]
  exact congrArg M.flatMap (funext h)

theorem flatMap_source_map_free (L : List Lexeme) : (L.map free).flatMap source = L := by
  induction L with
  | nil => rfl
  | cons x L ih =>
    rw [List.map_cons, List.flatMap_cons, ih]
    rfl

theorem map_free_append_free (run : List Lexeme) (x : Lexeme) (M : List Mark) :
    run.map free ++ free x :: M = (run ++ [x]).map free ++ M := by
  rw [List.map_append, List.append_assoc]
  rfl

end Mark

namespace Scan

/-- The scan in front of a text, and behind a keyword token. -/
def start : Scan := ⟨0, true⟩

/-- The scan behind a free lexeme. -/
def next (s : Scan) (x : Lexeme) : Scan := ⟨x.chunk.depthAfter s.depth, x.chunk.closes s.depth⟩

/-- The hit that a scan finds at the start of lexemes. -/
def hit? (s : Scan) : List Lexeme → Option (Nat × Token)
  | [] => none
  | x :: L =>
    if s.depth == 0 && (s.ready || !x.gap.isEmpty || Lexeme.startsSymbol (x :: L)) then
      Lexeme.hit? (x :: L)
    else none

/-- The marks of lexemes of which some belong to a mark in front of them. -/
def marksFrom : Nat → Scan → List Lexeme → List Mark
  | _, _, [] => []
  | taken + 1, s, _ :: L => marksFrom taken s L
  | 0, s, x :: L =>
    match s.hit? (x :: L) with
    | some (n, token) => .keyword ((x :: L).take n) token :: marksFrom (n - 1) start L
    | none => .free x :: marksFrom 0 (s.next x) L

/-- The marks of lexemes. -/
def marks (s : Scan) (L : List Lexeme) : List Mark := marksFrom 0 s L

theorem marksFrom_eq_marks_drop (taken : Nat) (s : Scan) (L : List Lexeme) :
    marksFrom taken s L = marks s (L.drop taken) := by
  induction L generalizing taken with
  | nil => cases taken <;> rfl
  | cons x L ih =>
    cases taken with
    | zero => rfl
    | succ taken => exact ih taken

end Scan

namespace Lexeme

/-! ### What a hit can be -/

theorem length_le_of_adjoins {s : Text} {L : List Lexeme} (h : adjoins s L = true) :
    s.length ≤ L.length := by
  induction s generalizing L with
  | nil => exact Nat.zero_le _
  | cons c s ih =>
    cases L with
    | nil => cases h
    | cons x L => exact Nat.succ_le_succ (ih (Bool.and_eq_true_iff.1 h).2)

theorem length_le_of_spells {ks : List Keyword} {L : List Lexeme} (h : spells ks L = true) :
    ks.length ≤ L.length := by
  have hprefix := List.isPrefixOf_iff_prefix.1 h
  simpa using hprefix.length_le

/-- A hit is that of a symbol, or that of a phrase. -/
theorem exists_of_hit? {L : List Lexeme} {n : Nat} {token : Token} (h : hit? L = some (n, token)) :
    (∃ s ∈ Family.comparison.symbols, adjoins s (bare L) = true ∧ n = s.length ∧
      token = ⟨.compare, s⟩) ∨
    ∃ f : Family, ∃ p ∈ f.phrases, spells p.keywords L = true ∧ n = p.keywords.length ∧
      token = p.token := by
  obtain ⟨f, -, hf⟩ := List.exists_of_findSome?_eq_some h
  rcases Option.or_eq_some_iff.1 hf with hs | ⟨-, hp⟩
  · obtain ⟨s, hfind, heq⟩ := Option.map_eq_some_iff.1 hs
    obtain ⟨rfl, rfl⟩ := Prod.mk.inj heq
    have hmem := List.mem_of_find?_eq_some hfind
    have hadjoins : adjoins s (bare L) = true :=
      List.find?_some (p := fun s => adjoins s (bare L)) hfind
    refine Or.inl ⟨s, ?_, hadjoins, rfl, rfl⟩
    cases f <;> first | exact hmem | cases hmem
  · obtain ⟨p, hmem, hp⟩ := List.exists_of_findSome?_eq_some hp
    split at hp
    · rename_i hspells
      obtain ⟨rfl, rfl⟩ := Prod.mk.inj (Option.some.inj hp)
      exact Or.inr ⟨f, p, hmem, hspells, rfl, rfl⟩
    · cases hp

/-- A hit takes at least one lexeme, and no more than there are. -/
theorem length_of_hit? {L : List Lexeme} {n : Nat} {token : Token} (h : hit? L = some (n, token)) :
    0 < n ∧ n ≤ L.length := by
  rcases exists_of_hit? h with ⟨s, hs, hadjoins, rfl, -⟩ | ⟨f, p, -, hspells, rfl, -⟩
  · have hbare : (bare L).length = L.length := by cases L <;> rfl
    exact ⟨List.length_pos_iff.2 (Family.ne_nil_of_mem_symbols hs),
      hbare ▸ length_le_of_adjoins hadjoins⟩
  · exact ⟨Nat.succ_pos _, length_le_of_spells hspells⟩

/-- Where a symbol stands there is a hit. -/
theorem isSome_hit?_of_startsSymbol {L : List Lexeme} (h : startsSymbol L = true) :
    (hit? L).isSome = true := by
  obtain ⟨s, hs, hadjoins⟩ := List.any_eq_true.1 h
  have hread : (Family.comparison.read? L).isSome = true := by
    have hfind : (Family.comparison.symbols.find? fun s => adjoins s (bare L)).isSome = true :=
      List.find?_isSome.2 ⟨s, hs, hadjoins⟩
    simp [Family.read?, Family.symbolRead?, hfind]
  exact List.findSome?_isSome_iff.2 ⟨.comparison, by decide, hread⟩

end Lexeme

namespace Scan

theorem hit?_eq_some {s : Scan} {L : List Lexeme} {r : Nat × Token} (h : s.hit? L = some r) :
    s.depth = 0 ∧ Lexeme.hit? L = some r := by
  cases L with
  | nil => cases h
  | cons x L =>
    rw [hit?, Option.ite_none_right_eq_some] at h
    exact ⟨by simpa using (Bool.and_eq_true_iff.1 h.1).1, h.2⟩

/-- Where a scan looks for a hit it finds the one at the start of the lexemes. -/
theorem hit?_of_tried {s : Scan} {x : Lexeme} {L : List Lexeme} (hd : s.depth = 0)
    (h : s.ready = true ∨ x.gap ≠ [] ∨ Lexeme.startsSymbol (x :: L) = true) :
    s.hit? (x :: L) = Lexeme.hit? (x :: L) := by
  rw [hit?, if_pos]
  simp only [hd, beq_self_eq_true, Bool.true_and, Bool.or_eq_true, Bool.not_eq_true',
    List.isEmpty_eq_false_iff]
  rwa [or_assoc]

/-- The marks of lexemes, from the first of them on. -/
theorem marks_cons (s : Scan) (x : Lexeme) (L : List Lexeme) :
    s.marks (x :: L) =
      match s.hit? (x :: L) with
      | some (n, token) => .keyword ((x :: L).take n) token :: start.marks ((x :: L).drop n)
      | none => .free x :: (s.next x).marks L := by
  cases h : s.hit? (x :: L) with
  | none => simp only [marks, marksFrom, h]
  | some r =>
    obtain ⟨n, token⟩ := r
    obtain ⟨n, rfl⟩ := Nat.exists_eq_succ_of_ne_zero
      (Nat.ne_of_gt (Lexeme.length_of_hit? (hit?_eq_some h).2).1)
    simp only [marks, marksFrom, h]
    rw [marksFrom_eq_marks_drop]
    rfl

@[simp] theorem marks_nil (s : Scan) : s.marks [] = [] := rfl

theorem marks_cons_of_none {s : Scan} {x : Lexeme} {L : List Lexeme} (h : s.hit? (x :: L) = none) :
    s.marks (x :: L) = .free x :: (s.next x).marks L := by
  rw [marks_cons, h]

theorem marks_of_some {s : Scan} {L : List Lexeme} {n : Nat} {token : Token}
    (h : s.hit? L = some (n, token)) :
    s.marks L = .keyword (L.take n) token :: start.marks (L.drop n) := by
  cases L with
  | nil => cases h
  | cons x L => rw [marks_cons, h]

/-! ### Valid marks -/

/-- The marks agree with the hits that the scan finds on its way. -/
def Valid : Scan → List Mark → Prop
  | _, [] => True
  | s, .free x :: M => s.hit? (x :: M.flatMap Mark.source) = none ∧ (s.next x).Valid M
  | s, .keyword source token :: M =>
    s.hit? (source ++ M.flatMap Mark.source) = some (source.length, token) ∧ start.Valid M

theorem Valid.source_ne_nil {s : Scan} {source : List Lexeme} {token : Token} {M : List Mark}
    (h : s.Valid (.keyword source token :: M)) : source ≠ [] :=
  List.length_pos_iff.1 (Lexeme.length_of_hit? (hit?_eq_some h.1).2).1

/-- Lexemes have only one list of valid marks. -/
theorem Valid.marks_eq {s : Scan} {M : List Mark} (h : s.Valid M) :
    s.marks (M.flatMap Mark.source) = M := by
  induction M generalizing s with
  | nil => rfl
  | cons m M ih =>
    cases m with
    | free x =>
      change s.marks (x :: M.flatMap Mark.source) = _
      rw [marks_cons_of_none h.1, ih h.2]
    | keyword source token =>
      change s.marks (source ++ M.flatMap Mark.source) = _
      rw [marks_of_some h.1, List.take_left, List.drop_left, ih h.2]

/-- The marks of lexemes are valid, and lose nothing. -/
theorem valid_marks_and_flatMap (s : Scan) (L : List Lexeme) :
    s.Valid (s.marks L) ∧ (s.marks L).flatMap Mark.source = L := by
  induction hn : L.length using Nat.strongRecOn generalizing s L with
  | ind n ih =>
    cases L with
    | nil => exact ⟨trivial, rfl⟩
    | cons x L =>
      cases h : s.hit? (x :: L) with
      | none =>
        have hshort : L.length < n := hn ▸ Nat.lt_succ_self L.length
        obtain ⟨hvalid, hflat⟩ := ih L.length hshort (s.next x) L rfl
        rw [marks_cons_of_none h]
        refine ⟨⟨?_, hvalid⟩, ?_⟩
        · rw [hflat, h]
        · change x :: ((s.next x).marks L).flatMap Mark.source = _
          rw [hflat]
      | some r =>
        obtain ⟨k, token⟩ := r
        obtain ⟨hpos, hle⟩ := Lexeme.length_of_hit? (hit?_eq_some h).2
        have hshort : ((x :: L).drop k).length < n := by
          rw [List.length_drop]
          omega
        obtain ⟨hvalid, hflat⟩ := ih _ hshort start ((x :: L).drop k) rfl
        rw [marks_of_some h]
        refine ⟨⟨?_, hvalid⟩, ?_⟩
        · rw [hflat, List.take_append_drop, h, List.length_take, Nat.min_eq_left hle]
        · change (x :: L).take k ++ (start.marks ((x :: L).drop k)).flatMap Mark.source = _
          rw [hflat, List.take_append_drop]

theorem valid_marks (s : Scan) (L : List Lexeme) : s.Valid (s.marks L) :=
  (s.valid_marks_and_flatMap L).1

theorem flatMap_source_marks (s : Scan) (L : List Lexeme) :
    (s.marks L).flatMap Mark.source = L :=
  (s.valid_marks_and_flatMap L).2

end Scan

theorem Mark.flatMap_source_ne_nil {s : Scan} {m : Mark} {M : List Mark} (h : s.Valid (m :: M)) :
    (m :: M).flatMap source ≠ [] := by
  cases m with
  | free x => exact List.cons_ne_nil _ _
  | keyword src token => exact List.append_ne_nil_of_left_ne_nil h.source_ne_nil _

/-- The lexemes of marks are again those that a scan has read, behind no free lexemes. -/
theorem Lexeme.Tight.flatMap_source_marks {L : List Lexeme} (h : Tight [] L) (s : Scan) :
    Tight [] ([] ++ (s.marks L).flatMap Mark.source) := by
  rwa [List.nil_append, s.flatMap_source_marks]

end SqlLayout
