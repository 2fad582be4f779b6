import SqlLayout.Proofs.Layout.Calm
import SqlLayout.Proofs.Scan.Overlap

/-!
# The marks of a layout

Behind the commas of a list a layout has gaps, so hits may be found there that were none in the
statement, and the clause of what follows may be another one.  But a hit that is new ends inside the
list, or together with the keyword token behind the list, and then it has the kind of that token.
So scans of the statement and of the layout agree again where the list ends, and the marks of a
layout are calm: in each of its lists there is a gap behind each comma.

## Main definitions

* `Lexeme.Pending` : the rest of a phrase that a hit has taken.
* `Scan.Trails` : the scan of a layout beside that of the statement.

## Main results

* `Scan.Trails.tail`, `Scan.Trails.next`, `Scan.Trails.behind`, `Scan.Trails.keyword` : the steps
  from one mark of the statement to the next.
* `Mark.calm_marks_reflow` : the marks of a layout are calm.
-/

namespace SqlLayout

theorem Kind.contextAfter_eq {context : Option Kind} {k : Kind}
    (hcontext : context.any listsItems = true)
    (h : (k.contextAfter context).any listsItems = false) (other : Option Kind) :
    k.contextAfter other = k.contextAfter context := by
  cases k with
  | on | compare | and | or | «in» | str =>
    rw [show (Kind.contextAfter context _) = context from rfl, hcontext] at h
    cases h
  | _ => rfl

/-! ### Phrases that have begun -/

namespace Lexeme

/-- The next lexemes are the last words of a phrase.  A hit among them ends with the phrase, and has
its kind. -/
structure Pending (taken : Nat) (kind : Kind) (L : List Lexeme) : Prop where
  words : ∀ x ∈ L.take taken, x.chunk.isWord = true
  ends : ∀ k < taken, ∀ (n : Nat) (token : Token), hit? (L.drop k) = some (n, token) →
    n + k = taken ∧ token.kind = kind

theorem Pending.tail {taken : Nat} {kind : Kind} {x : Lexeme} {L : List Lexeme}
    (h : Pending (taken + 1) kind (x :: L)) : Pending taken kind L := by
  refine ⟨fun y hy => h.words y (List.mem_cons_of_mem x hy), fun k hk n token hhit => ?_⟩
  obtain ⟨hlen, hkind⟩ := h.ends (k + 1) (Nat.succ_lt_succ hk) n token hhit
  exact ⟨by omega, hkind⟩

/-- Behind the first word of a phrase that a hit takes. -/
theorem pending_of_hit? {f : Family} {p : Phrase} (hp : p ∈ f.phrases) {x : Lexeme}
    {L : List Lexeme} (hspells : spells p.keywords (x :: L) = true)
    (h : hit? (x :: L) = some (p.keywords.length, p.token)) :
    Pending (p.keywords.length - 1) p.kind L := by
  refine ⟨fun y hy => ?_, fun k hk n token hhit => ?_⟩
  · have hall : spells p.keywords ((x :: L).take p.keywords.length) = true := by
      have hle := length_le_of_spells hspells
      rw [← List.take_append_drop p.keywords.length (x :: L)] at hspells
      rwa [spells_append (by rw [List.length_take, Nat.min_eq_left hle])] at hspells
    refine isWord_of_spells hall ?_ y ?_
    · rw [List.length_take, Nat.min_eq_left (length_le_of_spells hspells)]
    · rw [Phrase.keywords, List.length_cons, List.take_succ_cons]
      exact List.mem_cons_of_mem x hy
  · obtain ⟨hlen, hkind⟩ := hit?_drop hp hspells h (k := k + 1) (by omega) (by omega) hhit
    exact ⟨by omega, hkind⟩

theorem depthAfter_of_isWord {chunk : Chunk} (h : chunk.isWord = true) (d : Nat) :
    chunk.depthAfter d = d := by
  cases chunk with
  | word letters => rfl
  | _ => cases h

end Lexeme

/-! ### Where gaps are put -/

namespace Mark

/-- Marks with new gaps have other gaps. -/
theorem forall₂_reflow (context : Option Kind) (d : Nat) (fresh : Bool) (M : List Mark) :
    List.Forall₂ Lexeme.Regapped (M.flatMap source)
      ((reflow context d fresh M).flatMap source) := by
  induction M generalizing context d fresh with
  | nil => exact .nil
  | cons m M ih =>
    cases m with
    | free x => exact .cons (regapped_respaced _ _ _ x) (ih context _ _)
    | keyword src token => exact List.rel_append (Lexeme.forall₂_regapped_setOff src) (ih _ _ _)

/-- A token or an item begins behind a gap. -/
theorem quiet_reflow {s : Scan} {M : List Mark} (hM : s.Valid M) (context : Option Kind) (d : Nat) :
    Lexeme.Quiet ((reflow context d true M).flatMap source) := by
  refine Or.inl fun x hx => ?_
  cases M with
  | nil => cases hx
  | cons m M =>
    cases m with
    | free y =>
      obtain rfl := Option.some.inj hx
      exact List.cons_ne_nil _ _
    | keyword src token =>
      obtain ⟨y, src, rfl⟩ := List.exists_cons_of_ne_nil hM.source_ne_nil
      obtain rfl := Option.some.inj hx
      exact List.cons_ne_nil _ _

end Mark

namespace Scan

/-- Where a scan has found nothing no symbol stands, with other gaps neither. -/
theorem exists_phrase_of_regapped {s : Scan} (hd : s.depth = 0) {x y : Lexeme} {L M : List Lexeme}
    (h : s.hit? (x :: L) = none) (hLM : List.Forall₂ Lexeme.Regapped (x :: L) (y :: M))
    {n : Nat} {token : Token} (hhit : Lexeme.hit? (y :: M) = some (n, token)) :
    ∃ f : Family, ∃ p ∈ f.phrases, Lexeme.spells p.keywords (y :: M) = true ∧
      n = p.keywords.length ∧ token = p.token := by
  rcases Lexeme.exists_of_hit? hhit with ⟨t, ht, hadjoins, -, -⟩ | hphrase
  · have hsymbol : Lexeme.startsSymbol (x :: L) = true := List.any_eq_true.2
      ⟨t, ht, Lexeme.adjoins_of_regapped (Lexeme.forall₂_regapped_bare hLM)
        (Lexeme.ne_comma_of_mem_symbols ht) hadjoins⟩
    rw [hit?, if_pos (by simp [hd, hsymbol])] at h
    have hsome := Lexeme.isSome_hit?_of_startsSymbol hsymbol
    rw [h] at hsome
    cases hsome
  · exact hphrase

/-- Where the scan `s'` of a layout stands when the scan `s` of the statement has come to marks.  In
front of lists they agree.  In a list they have the same number of open parentheses, and the layout
may be inside a hit that is new: then `taken` of its next lexemes `L` belong to the hit. -/
structure Trails (context : Option Kind) (s : Scan) (fresh : Bool) (context' : Option Kind)
    (s' : Scan) (taken : Nat) (L : List Lexeme) : Prop where
  depth : s'.depth = s.depth
  outside : context.any Kind.listsItems = false →
    context' = context ∧ s' = s ∧ taken = 0 ∧ (fresh = true → s.ready = true)
  inside : 0 < taken → s' = start ∧
    ∃ (kind : Kind) (c : Option Kind), context' = kind.contextAfter c ∧ Lexeme.Pending taken kind L

variable {context context' : Option Kind} {s s' : Scan} {fresh : Bool} {taken : Nat} {x y : Lexeme}
  {L M : List Lexeme}

theorem Trails.lists (h : Trails context s fresh context' s' (taken + 1) L) :
    context.any Kind.listsItems = true := by
  by_contra hlists
  obtain ⟨-, -, htaken, -⟩ := h.outside (Bool.not_eq_true _ ▸ hlists)
  cases htaken

/-- Behind a free lexeme that the layout has taken. -/
theorem Trails.tail (h : Trails context s fresh context' s' (taken + 1) (y :: L))
    (hxy : y.chunk = x.chunk) (fresh' : Bool) :
    Trails context (s.next x) fresh' context' s' taken L := by
  obtain ⟨hstart, kind, c, hcontext, hpending⟩ := h.inside taken.succ_pos
  have hword : x.chunk.isWord = true := by
    rw [← hxy]
    exact hpending.words y (by rw [List.take_succ_cons]; exact List.mem_cons_self)
  refine ⟨?_, fun hlists => ?_, fun _ => ⟨hstart, kind, c, hcontext, hpending.tail⟩⟩
  · rw [next, Lexeme.depthAfter_of_isWord hword, h.depth]
  · rw [h.lists] at hlists
    cases hlists

/-- Behind a free lexeme where the layout has nothing either. -/
theorem Trails.next (h : Trails context s fresh context' s' 0 (y :: L))
    (hxy : y.chunk = x.chunk) :
    Trails context (s.next x) (context.any Kind.listsItems && x.separates s.depth) context'
      (s'.next y) 0 L := by
  refine ⟨?_, fun hlists => ?_, fun hpos => absurd hpos (Nat.lt_irrefl 0)⟩
  · rw [Scan.next, Scan.next, hxy, h.depth]
  · obtain ⟨hcontext, rfl, -, -⟩ := h.outside hlists
    refine ⟨hcontext, ?_, rfl, fun hfresh => ?_⟩
    · rw [Scan.next, Scan.next, hxy]
    · rw [hlists] at hfresh
      cases hfresh

/-- Outside of lists nothing is found in a layout where nothing was found in the statement. -/
theorem Trails.hit?_eq_none (h : Trails context s fresh context' s' 0 (y :: M))
    (hlists : context.any Kind.listsItems = false) (hnone : s.hit? (x :: L) = none)
    (hLM : List.Forall₂ Lexeme.Regapped (x :: L) (y :: M))
    (hgap : fresh = false → x.gap = [] → y.gap = []) : s'.hit? (y :: M) = none := by
  obtain ⟨-, rfl, -, hready⟩ := h.outside hlists
  refine hit?_eq_none_of_regapped hnone hLM fun _ hx hy => Or.inl ?_
  cases fresh with
  | true => exact hready rfl
  | false => exact absurd (hgap rfl hx) hy

/-- Where a hit is new in a layout, it takes a phrase behind the comma of a list. -/
theorem Trails.behind (h : Trails context s fresh context' s' 0 (y :: M))
    (hnone : s.hit? (x :: L) = none) (hLM : List.Forall₂ Lexeme.Regapped (x :: L) (y :: M))
    (hgap : fresh = false → x.gap = [] → y.gap = []) {n : Nat} {token : Token}
    (hhit : s'.hit? (y :: M) = some (n, token)) (fresh' : Bool) :
    Trails context (s.next x) fresh' (token.kind.contextAfter context') start (n - 1) M := by
  obtain ⟨hd, hread⟩ := hit?_eq_some hhit
  have hd : s.depth = 0 := by rw [← h.depth, hd]
  have hlists : context.any Kind.listsItems = true := by
    by_contra hlists
    rw [h.hit?_eq_none (Bool.not_eq_true _ ▸ hlists) hnone hLM hgap] at hhit
    cases hhit
  obtain ⟨f, p, hp, hspells, rfl, rfl⟩ := exists_phrase_of_regapped hd hnone hLM hread
  obtain ⟨z, N, hcons, -, hword⟩ := Lexeme.exists_cons_of_spells hspells
  obtain ⟨rfl, rfl⟩ := List.cons.inj hcons
  refine ⟨?_, fun hout => ?_, fun _ =>
    ⟨rfl, p.kind, context', rfl, Lexeme.pending_of_hit? hp hspells hread⟩⟩
  · rw [(List.forall₂_cons.1 hLM).1.1] at hword
    rw [Scan.next, Lexeme.depthAfter_of_isWord hword, hd]
    rfl
  · rw [hlists] at hout
    cases hout

/-- At a keyword token of the statement the layout has one that ends there too, and both scans start
again. -/
theorem Trails.keyword {src : List Lexeme} {token : Token}
    (h : Trails context s fresh context' s' taken (Lexeme.setOff src ++ M))
    (hhit : s.hit? (src ++ L) = some (src.length, token))
    (hLM : List.Forall₂ Lexeme.Regapped L M) :
    ∃ context'', Trails (token.kind.contextAfter context) start true context'' start 0 M ∧
      ((taken = 0 ∧ context'' = token.kind.contextAfter context' ∧
        s'.hit? (Lexeme.setOff src ++ M) = some ((Lexeme.setOff src).length, token)) ∨
      (taken = (Lexeme.setOff src).length ∧ context'' = context' ∧ s' = start)) := by
  obtain ⟨hd, -⟩ := hit?_eq_some hhit
  have hstart := hit?_eq_some_of_regapped hhit (Lexeme.forall₂_regapped_setOff src)
    (Lexeme.bare_map_plain_setOff src) hLM
  have hread := (hit?_eq_some hstart).2
  cases taken with
  | zero =>
    refine ⟨_, ⟨rfl, fun hout => ⟨?_, rfl, rfl, fun _ => rfl⟩,
      fun hpos => absurd hpos (Nat.lt_irrefl 0)⟩, Or.inl ⟨rfl, rfl, ?_⟩⟩
    · cases hlists : context.any Kind.listsItems with
      | false => rw [(h.outside hlists).1]
      | true => exact Kind.contextAfter_eq hlists hout context'
    · have hpos := (Lexeme.length_of_hit? hread).1
      obtain ⟨x, src', hsrc⟩ := List.exists_cons_of_length_pos hpos
      have hgap : x.gap ≠ [] := by
        cases src with
        | nil => cases hsrc
        | cons z src =>
          obtain ⟨rfl, -⟩ := List.cons.inj hsrc
          exact List.cons_ne_nil _ _
      rw [hsrc, List.cons_append] at hread ⊢
      rw [hit?_of_tried (h.depth.trans hd) (Or.inr (Or.inl hgap)), hread]
  | succ taken =>
    obtain ⟨hs', kind, c, rfl, hpending⟩ := h.inside taken.succ_pos
    obtain ⟨hlen, rfl⟩ := hpending.ends 0 taken.succ_pos _ _ hread
    refine ⟨_, ⟨rfl, fun hout => ⟨?_, rfl, rfl, fun _ => rfl⟩,
      fun hpos => absurd hpos (Nat.lt_irrefl 0)⟩, Or.inr ⟨hlen.symm, rfl, hs'⟩⟩
    exact Kind.contextAfter_eq h.lists hout c

end Scan

/-! ### The marks of a layout -/

namespace Mark

theorem flatMap_source_reflow_free (context : Option Kind) (d : Nat) (fresh : Bool) (x : Lexeme)
    (M : List Mark) :
    (reflow context d fresh (free x :: M)).flatMap source =
      x.respaced (context.any Kind.listsItems) d fresh ::
        (reflow context (x.chunk.depthAfter d) (context.any Kind.listsItems && x.separates d)
          M).flatMap source := rfl

theorem flatMap_source_reflow_keyword (context : Option Kind) (d : Nat) (fresh : Bool)
    (src : List Lexeme) (token : Token) (M : List Mark) :
    (reflow context d fresh (keyword src token :: M)).flatMap source =
      Lexeme.setOff src ++
        (reflow (token.kind.contextAfter context) 0 true M).flatMap source := rfl

/-- From one mark of the statement to the next the marks of the layout are calm. -/
theorem calm_marksFrom {context context' : Option Kind} {s s' : Scan} {fresh : Bool} {taken : Nat}
    {M : List Mark} (hM : s.Valid M)
    (h : Scan.Trails context s fresh context' s' taken
      ((reflow context s.depth fresh M).flatMap source)) :
    Calm context' s'.depth
      (Scan.marksFrom taken s' ((reflow context s.depth fresh M).flatMap source)) := by
  induction M generalizing context s fresh context' s' taken with
  | nil => cases taken <;> exact trivial
  | cons m M ih =>
    cases m with
    | free x =>
      have hall := forall₂_reflow context s.depth fresh (free x :: M)
      have hgap : fresh = false → x.gap = [] →
          (x.respaced (context.any Kind.listsItems) s.depth fresh).gap = [] := by
        rintro rfl hx
        exact gap_of_respaced hx
      rw [flatMap_source_reflow_free] at hall h ⊢
      cases taken with
      | succ taken =>
        exact ih hM.2 (h.tail rfl (context.any Kind.listsItems && x.separates s.depth))
      | zero =>
        cases hhit : s'.hit? (x.respaced (context.any Kind.listsItems) s.depth fresh ::
            (reflow context (x.chunk.depthAfter s.depth)
              (context.any Kind.listsItems && x.separates s.depth) M).flatMap source) with
        | none =>
          have hnext := ih hM.2 (h.next (x := x) rfl)
          change Calm context' s'.depth (s'.marks _)
          rw [Scan.marks_cons_of_none hhit]
          refine ⟨fun hsep => ?_, hnext⟩
          rw [Scan.flatMap_source_marks]
          -- the next lexeme begins an item in the layout, and so behind a gap
          obtain ⟨hlists', hcomma⟩ := Bool.and_eq_true_iff.1 hsep
          have hlists : context.any Kind.listsItems = true := by
            by_contra hlists
            rw [(h.outside (Bool.not_eq_true _ ▸ hlists)).1] at hlists'
            exact hlists hlists'
          rw [h.depth] at hcomma
          rw [hlists, show x.separates s.depth = true from hcomma]
          exact quiet_reflow hM.2 context _
        | some r =>
          obtain ⟨n, token⟩ := r
          have hbehind := ih hM.2 (h.behind hM.1 hall hgap hhit
            (context.any Kind.listsItems && x.separates s.depth))
          simp only [Scan.marksFrom, hhit]
          exact hbehind
    | keyword src token =>
      have hLM := forall₂_reflow (token.kind.contextAfter context) 0 true M
      rw [flatMap_source_reflow_keyword] at h ⊢
      obtain ⟨context'', htrails, ⟨rfl, rfl, hhit⟩ | ⟨rfl, rfl, rfl⟩⟩ := h.keyword hM.1 hLM
      · change Calm context' s'.depth (s'.marks _)
        rw [Scan.marks_of_some hhit, List.drop_left]
        exact ih hM.2 htrails
      · rw [Scan.marksFrom_eq_marks_drop, List.drop_left]
        exact ih hM.2 htrails

/-- The marks of a layout are calm. -/
theorem calm_marks_reflow {M : List Mark} (hM : Scan.start.Valid M) :
    Calm none 0 (Scan.start.marks ((reflow none 0 true M).flatMap source)) := by
  have htrails : Scan.Trails none .start true none .start 0
      ((reflow none 0 true M).flatMap source) :=
    ⟨rfl, fun _ => ⟨rfl, rfl, rfl, fun _ => rfl⟩, fun hpos => absurd hpos (Nat.lt_irrefl 0)⟩
  exact calm_marksFrom hM htrails

end Mark

end SqlLayout
