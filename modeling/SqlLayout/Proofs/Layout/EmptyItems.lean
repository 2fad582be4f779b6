import SqlLayout.Proofs.Layout.LineEnds
import SqlLayout.Proofs.Scan.Streams

/-!
# Empty items

An item of a list may be empty.  In front of a comma it makes a line that ends in the comma, and in
front of other tokens it leaves no trace but a space.  The only empty item that makes a line of
blank characters is the last one of a list, behind a comma that nothing follows in its clause: the
line has been indented by then, and only lines without any character are dropped.

## Main definitions

* `Text.EndsInk` : the last character of a text is not blank.
* `Text.OpensItem` : a text ends in a comma at the top level.
* `Token.contextAfter` : the kind of the latest clause or join among tokens.
* `Token.Strands`, `Token.EndList` : a token leaves an empty item open, and tokens do not go on with
  the line of an item.
* `Token.LeaveEmptyItem` : tokens leave an empty item behind.
* `Page.Dangles` : the open line of a list holds nothing but an indent.
* `Page.rest` : the lines that tokens make on a page when nothing follows them.

## Main results

* `Text.IsSolid.exists_items_eq` : the last item of a text is empty exactly behind such a comma.
* `Page.mem_add`, `Page.pad_mem_add_iff`, `Page.dangles_add_iff` : what one token does about lines
  of blank characters.
* `Page.mem_rest`, `Page.pad_mem_rest_iff` : what all tokens do about them.
* `blank_lines` : the lines of a layout that end in a blank character.
-/

namespace SqlLayout

/-! ### Last items -/

namespace Text

/-- The last character of a text is not blank. -/
def EndsInk (t : Text) : Prop := ∃ u c, t = u ++ [c] ∧ isBlank c = false

/-- A text ends in a comma at the top level. -/
def OpensItem (t : Text) : Prop := ∃ u : Text, t = u ++ [','] ∧ u.Complete

theorem IsSolid.endsInk {t : Text} (h : t.IsSolid) : t.EndsInk := h.2

theorem EndsInk.append {t : Text} (h : t.EndsInk) (s : Text) : EndsInk (s ++ t) := by
  obtain ⟨u, c, rfl, hc⟩ := h
  exact ⟨s ++ u, c, (List.append_assoc s u [c]).symm, hc⟩

theorem endsInk_concat_comma (t : Text) : EndsInk (t ++ [',']) := ⟨t, ',', rfl, by decide⟩

theorem EndsInk.ne_nil {t : Text} (h : t.EndsInk) : t ≠ [] := by
  obtain ⟨u, c, rfl, -⟩ := h
  exact List.concat_ne_nil c u

theorem EndsInk.not_isBlank {t : Text} (h : t.EndsInk) : ¬ t.IsBlank := by
  obtain ⟨u, c, rfl, hc⟩ := h
  intro hblank
  rw [hblank c (by simp)] at hc
  cases hc

theorem EndsInk.right {s t : Text} (h : EndsInk (s ++ t)) (ht : t ≠ []) : t.EndsInk := by
  obtain ⟨u, c, heq, hc⟩ := h
  obtain ⟨v, d, rfl⟩ := t.eq_nil_or_concat'.resolve_left ht
  rw [← List.append_assoc] at heq
  obtain ⟨-, rfl⟩ := List.append_singleton_inj.1 heq
  exact ⟨v, d, rfl, hc⟩

/-- Trimming takes nothing off the end of such a text. -/
theorem EndsInk.trim {t : Text} (h : t.EndsInk) : t.trim.EndsInk := by
  refine (t.trim_eq_nil_or_isSolid.resolve_left fun hnil => h.not_isBlank ?_).endsInk
  obtain ⟨front, behind, hfront, hbehind, heq⟩ := t.exists_trim_append
  rw [heq, hnil]
  exact hfront.append hbehind

/-- What stands in front of the last piece ends in a comma at the top level. -/
theorem exists_of_getLast?_cutAtCommas {n : Nesting} {t piece : Text}
    (h : piece ∈ (cutAtCommas n t).2.getLast?) :
    ∃ u, t = u ++ ',' :: piece ∧ n.after u = .start := by
  induction t generalizing n with
  | nil => cases h
  | cons c t ih =>
    rw [cutAtCommas] at h
    split at h
    · rename_i hcut
      obtain ⟨htop, hc⟩ := Bool.and_eq_true_iff.1 hcut
      obtain rfl : n = .start := Nesting.isTop_iff.1 htop
      obtain rfl : c = ',' := by simpa using hc
      rw [List.getLast?_cons, Option.mem_some_iff] at h
      cases hlast : (cutAtCommas (Nesting.start.next ',') t).2.getLast? with
      | none =>
        -- no comma follows, so the last piece is all that stands behind this one
        rcases exists_of_cutAtCommas_eq (n := Nesting.start.next ',') (t := t) rfl with
          ⟨-, ht⟩ | ⟨_, _, _, hcons, -⟩
        · rw [hlast, Option.getD_none] at h
          exact ⟨[], by rw [← h, ← ht, List.nil_append], rfl⟩
        · rw [hcons] at hlast
          simp at hlast
      | some last =>
        rw [hlast, Option.getD_some] at h
        obtain ⟨u, hu, hafter⟩ := ih (hlast.trans (congrArg some h))
        exact ⟨',' :: u, congrArg _ hu, hafter⟩
    · obtain ⟨u, hu, hafter⟩ := ih h
      exact ⟨c :: u, congrArg _ hu, hafter⟩

/-- Behind a comma at the end of a text is an empty piece. -/
theorem getLast?_cutAtCommas_comma {n : Nesting} {t : Text} (h : n.after t = .start) :
    (cutAtCommas n (t ++ [','])).2.getLast? = some [] := by
  induction t generalizing n with
  | nil =>
    obtain rfl : n = .start := h
    rfl
  | cons c t ih =>
    have hbehind := ih (n := n.next c) h
    rw [List.cons_append, cutAtCommas]
    split
    · rw [List.getLast?_cons, hbehind, Option.getD_some]
    · exact hbehind

theorem opensItem_iff {t : Text} :
    t.OpensItem ↔ (cutAtCommas .start t).2.getLast? = some [] := by
  constructor
  · rintro ⟨u, rfl, hu⟩
    exact getLast?_cutAtCommas_comma hu
  · intro h
    obtain ⟨u, ht, hu⟩ := exists_of_getLast?_cutAtCommas h
    exact ⟨u, ht, hu⟩

/-- The last item of a text is empty if the text ends in a comma at the top level, and there are
other items in front of it then.  Otherwise its last character is not blank. -/
theorem IsSolid.exists_items_eq {t : Text} (h : t.IsSolid) :
    ∃ (init : List Text) (last : Text), t.items = init ++ [last] ∧
      (t.OpensItem ∧ init ≠ [] ∧ last = [] ∨ ¬ t.OpensItem ∧ last.EndsInk) := by
  cases hlast : (cutAtCommas .start t).2.getLast? with
  | none =>
    have hopens : ¬ t.OpensItem := by simp [opensItem_iff, hlast]
    have hnil := List.getLast?_eq_none_iff.1 hlast
    rcases exists_of_cutAtCommas_eq (n := .start) (t := t) rfl with ⟨-, ht⟩ | ⟨_, _, _, hcons, -⟩
    · refine ⟨[], t.trim, ?_, Or.inr ⟨hopens, h.endsInk.trim⟩⟩
      rw [items, hnil, ← ht]
      rfl
    · rw [hcons] at hnil
      cases hnil
  | some piece =>
    obtain ⟨others, hothers⟩ := List.getLast?_eq_some_iff.1 hlast
    obtain ⟨u, ht, -⟩ := exists_of_getLast?_cutAtCommas hlast
    refine ⟨((cutAtCommas .start t).1 :: others).map trim, piece.trim, ?_, ?_⟩
    · rw [items, hothers]
      simp
    · by_cases hpiece : piece = []
      · refine Or.inl ⟨opensItem_iff.2 (hpiece ▸ hlast), by simp, ?_⟩
        rw [hpiece, trim_nil]
      · have hopens : ¬ t.OpensItem := by simp [opensItem_iff, hlast, hpiece]
        have hend : EndsInk ((u ++ [',']) ++ piece) := by simpa using ht ▸ h.endsInk
        exact Or.inr ⟨hopens, (hend.right hpiece).trim⟩

end Text

/-! ### Tokens and empty items -/

namespace Token

/-- The kind of the latest clause or join behind tokens, where `context` is the kind in front of
them. -/
def contextAfter (context : Option Kind) (ts : List Token) : Option Kind :=
  ts.foldl (fun context t => t.kind.contextAfter context) context

/-- A token leaves an empty item open: it is free text in a list and ends in a comma at the top
level. -/
def Strands (context : Option Kind) (t : Token) : Prop :=
  t.kind = .str ∧ context.any Kind.listsItems = true ∧ t.text.OpensItem

/-- Whether a token finishes the open line of a list: clauses and joins do. -/
def endsList (t : Token) : Bool := t.kind.opensClause || t.kind == .join

/-- No token goes on with the open line of a list. -/
def EndList (ts : List Token) : Prop := ∀ t ∈ ts.head?, t.endsList = true

theorem endList_nil : EndList [] := nofun

theorem endList_cons_iff {t : Token} {ts : List Token} :
    EndList (t :: ts) ↔ t.endsList = true := by
  simp [EndList]

/-- Among some tokens is one that leaves an empty item open with which nothing goes on. -/
def LeaveEmptyItem (context : Option Kind) (ts : List Token) : Prop :=
  ∃ before t after, ts = before ++ t :: after ∧ t.Strands (contextAfter context before) ∧
    EndList after

theorem not_leaveEmptyItem_nil (context : Option Kind) : ¬ LeaveEmptyItem context [] := by
  rintro ⟨before, t, after, heq, -⟩
  exact List.append_ne_nil_of_right_ne_nil before (List.cons_ne_nil t after) heq.symm

theorem leaveEmptyItem_cons_iff {context : Option Kind} {t : Token} {ts : List Token} :
    LeaveEmptyItem context (t :: ts) ↔
      t.Strands context ∧ EndList ts ∨ LeaveEmptyItem (t.kind.contextAfter context) ts := by
  constructor
  · rintro ⟨before, u, after, heq, hstrands, hend⟩
    cases before with
    | nil =>
      obtain ⟨rfl, rfl⟩ := List.cons.inj heq
      exact Or.inl ⟨hstrands, hend⟩
    | cons first before =>
      obtain ⟨rfl, rfl⟩ := List.cons.inj heq
      exact Or.inr ⟨before, u, after, rfl, hstrands, hend⟩
  · rintro (⟨hstrands, hend⟩ | ⟨before, u, after, rfl, hstrands, hend⟩)
    · exact ⟨[], t, ts, rfl, hstrands, hend⟩
    · exact ⟨t :: before, u, after, rfl, hstrands, hend⟩

end Token

/-! ### Open lines -/

namespace Page

variable {i : Indent} {p : Page}

/-- The open line of a list holds nothing but an indent. -/
def Dangles (i : Indent) (p : Page) : Prop :=
  p.line = i.pad ∧ i.width ≠ 0 ∧ p.showsList = true

/-- The open line is empty, its last character is not blank, or it dangles. -/
def Tidy (i : Indent) (p : Page) : Prop := p.line = [] ∨ p.line.EndsInk ∨ p.Dangles i

theorem pad_ne_nil (h : i.width ≠ 0) : i.pad ≠ [] := by
  rw [← i.length_pad] at h
  exact List.ne_nil_of_length_pos (Nat.pos_of_ne_zero h)

theorem mem_close_iff {l : Text} : l ∈ p.close ↔ l = p.line ∧ l ≠ [] := by
  rw [close]
  split <;> simp_all

theorem margin_of_showsList (h : p.showsList = true) : p.margin i = i.pad := by
  obtain ⟨line, context⟩ := p
  cases context with
  | none => cases h
  | some k => rfl

/-- No page shows a list and a condition. -/
theorem showsList_of_showsCondition (h : p.showsCondition = true) : p.showsList = false := by
  obtain ⟨line, context⟩ := p
  cases context with
  | none => cases h
  | some k => cases k <;> first | rfl | cases h

theorem Dangles.not_endsInk (h : p.Dangles i) : ¬ p.line.EndsInk :=
  fun hend => hend.not_isBlank (h.1 ▸ isBlank_pad i)

theorem endsInk_write {t : Text} (h : t.EndsInk) (i : Indent) (p : Page) :
    (p.write i t).line.EndsInk := by
  rw [write]
  split
  · exact h.append (p.margin i)
  · exact (h.append [' ']).append p.line

/-- The lines that items finish end in commas. -/
theorem endsInk_of_mem_writeItems {items : List Text} :
    ∀ l ∈ (p.writeItems i items).1, l.EndsInk := by
  induction items generalizing p with
  | nil => exact List.forall_mem_nil _
  | cons item items ih =>
    cases items with
    | nil => exact List.forall_mem_nil _
    | cons second others => exact List.forall_mem_cons.2 ⟨Text.endsInk_concat_comma _, ih⟩

/-- The last of several items is written on a line of its own. -/
theorem writeItems_concat {init : List Text} (h : init ≠ []) (last : Text) :
    (p.writeItems i (init ++ [last])).2 = { p with line := [] }.write i last := by
  induction init generalizing p with
  | nil => exact absurd rfl h
  | cons item init ih =>
    cases init with
    | nil => rfl
    | cons second others => exact ih (List.cons_ne_nil second others)

/-! ### One token -/

section Add

variable {t : Token} (ht : t.text.IsSolid)

include ht in
/-- A token that leaves an empty item open leaves the indent of the item on the line. -/
theorem line_add_of_strands (h : t.Strands p.context) : (p.add i t).2.line = i.pad := by
  obtain ⟨kind, text⟩ := t
  obtain ⟨rfl, hlists, hopens⟩ := h
  have hshows : p.showsList = true := p.showsList_eq.trans hlists
  obtain ⟨init, last, hitems, hcase⟩ := ht.exists_items_eq
  obtain ⟨-, hinit, rfl⟩ := hcase.resolve_right fun hno => hno.1 hopens
  simp only [add, if_pos hshows]
  rw [hitems, writeItems_concat hinit]
  exact (List.append_nil _).trans (margin_of_showsList hshows)

include ht in
/-- Every other token leaves no line or one whose last character is not blank. -/
theorem line_add (h : ¬ t.Strands p.context) :
    (p.add i t).2.line = [] ∨ (p.add i t).2.line.EndsInk := by
  obtain ⟨kind, text⟩ := t
  have hwrite := endsInk_write ht.endsInk i p
  cases kind with
  | limit | offset => exact Or.inr ht.endsInk
  | select | «from» | «where» | group | having | order => exact Or.inl rfl
  | join => exact Or.inr (ht.endsInk.append (p.margin i))
  | and | or =>
    simp only [add]
    split
    · exact Or.inr (ht.endsInk.append (p.margin i))
    · exact Or.inr hwrite
  | on | compare | «in» => exact Or.inr hwrite
  | str =>
    simp only [add]
    split
    case isFalse => exact Or.inr hwrite
    case isTrue hshows =>
      have hopens : ¬ Text.OpensItem text := fun hopens =>
        h ⟨rfl, p.showsList_eq.symm.trans hshows, hopens⟩
      obtain ⟨init, last, hitems, hcase⟩ := ht.exists_items_eq
      obtain ⟨-, hlast⟩ := hcase.resolve_left fun hyes => hopens hyes.1
      rw [hitems]
      by_cases hinit : init = []
      · rw [hinit]
        exact Or.inr (endsInk_write hlast i p)
      · rw [writeItems_concat hinit]
        exact Or.inr (endsInk_write hlast i _)

include ht in
theorem dangles_add_iff : (p.add i t).2.Dangles i ↔ i.width ≠ 0 ∧ t.Strands p.context := by
  constructor
  · intro hdangles
    refine ⟨hdangles.2.1, ?_⟩
    by_contra hstrands
    rcases line_add ht hstrands with hnil | hend
    · exact pad_ne_nil hdangles.2.1 (hdangles.1.symm.trans hnil)
    · exact hdangles.not_endsInk hend
  · rintro ⟨hwidth, hstrands⟩
    refine ⟨line_add_of_strands ht hstrands, hwidth, ?_⟩
    rw [showsList_eq, context_add, hstrands.1]
    exact hstrands.2.1

include ht in
theorem tidy_add : (p.add i t).2.Tidy i := by
  by_cases hstrands : t.Strands p.context
  · by_cases hwidth : i.width = 0
    · refine Or.inl ((line_add_of_strands ht hstrands).trans ?_)
      rw [Indent.pad, hwidth, List.replicate_zero]
    · exact Or.inr (Or.inr ((dangles_add_iff ht).2 ⟨hwidth, hstrands⟩))
  · exact (line_add ht hstrands).imp_right Or.inl

theorem endsInk_or_of_mem_close (hp : p.Tidy i) {l : Text} (hl : l ∈ p.close) :
    l.EndsInk ∨ l = i.pad ∧ p.Dangles i := by
  obtain ⟨rfl, hne⟩ := mem_close_iff.1 hl
  rcases hp with hnil | hend | hdangles
  · exact absurd hnil hne
  · exact Or.inl hend
  · exact Or.inr ⟨hdangles.1, hdangles⟩

include ht in
/-- The last character of a line that a token finishes is not blank, unless the token ends a list
whose open line dangles. -/
theorem mem_add (hp : p.Tidy i) {l : Text} (hl : l ∈ (p.add i t).1) :
    l.EndsInk ∨ l = i.pad ∧ p.Dangles i ∧ t.endsList = true := by
  have hclose (h : l ∈ p.close) (hends : t.endsList = true) :
      l.EndsInk ∨ l = i.pad ∧ p.Dangles i ∧ t.endsList = true :=
    (endsInk_or_of_mem_close hp h).imp_right fun hpad => ⟨hpad.1, hpad.2, hends⟩
  obtain ⟨kind, text⟩ := t
  cases kind with
  | limit | offset | join => exact hclose hl rfl
  | select | «from» | «where» | group | having | order =>
    rcases List.mem_append.1 hl with hl | hl
    · exact hclose hl rfl
    · exact Or.inl (List.mem_singleton.1 hl ▸ ht.endsInk)
  | and | or =>
    simp only [add] at hl
    split at hl
    case isFalse => cases hl
    case isTrue hcondition =>
      refine (endsInk_or_of_mem_close hp hl).imp_right fun hpad => ?_
      rw [Dangles, showsList_of_showsCondition hcondition] at hpad
      exact absurd hpad.2.2.2 Bool.false_ne_true
  | on | compare | «in» => cases hl
  | str =>
    simp only [add] at hl
    split at hl
    · exact Or.inl (endsInk_of_mem_writeItems l hl)
    · cases hl

include ht in
theorem pad_mem_add_iff (hp : p.Tidy i) :
    i.pad ∈ (p.add i t).1 ↔ p.Dangles i ∧ t.endsList = true := by
  constructor
  · intro hpad
    rcases mem_add ht hp hpad with hend | ⟨-, h⟩
    · exact absurd (isBlank_pad i) hend.not_isBlank
    · exact h
  · rintro ⟨hdangles, hends⟩
    have hclose : i.pad ∈ p.close :=
      mem_close_iff.2 ⟨hdangles.1.symm, pad_ne_nil hdangles.2.1⟩
    obtain ⟨kind, text⟩ := t
    cases kind with
    | limit | offset | join => exact hclose
    | select | «from» | «where» | group | having | order => exact List.mem_append_left _ hclose
    | on | compare | and | or | «in» | str => cases hends

end Add

/-! ### All tokens -/

/-- The lines that tokens make on a page when nothing follows them. -/
def rest (i : Indent) (p : Page) (ts : List Token) : List Text :=
  (p.addAll i ts).1 ++ (p.addAll i ts).2.close

theorem rest_nil : p.rest i [] = p.close := rfl

theorem rest_cons (t : Token) (ts : List Token) :
    p.rest i (t :: ts) = (p.add i t).1 ++ (p.add i t).2.rest i ts := by
  rw [rest, addAll, rest, List.append_assoc]

theorem rest_blank (ts : List Token) : blank.rest i ts = lines i ts := rfl

section Rest

variable {ts : List Token} (hts : ∀ t ∈ ts, t.text.IsSolid)

include hts in
/-- The last character of a line is not blank, unless the line is an indent. -/
theorem mem_rest (hp : p.Tidy i) :
    ∀ l ∈ p.rest i ts, l.EndsInk ∨ l = i.pad ∧ i.width ≠ 0 := by
  induction ts generalizing p with
  | nil =>
    intro l hl
    exact (endsInk_or_of_mem_close hp hl).imp_right fun hpad => ⟨hpad.1, hpad.2.2.1⟩
  | cons t ts ih =>
    obtain ⟨ht, hts⟩ := List.forall_mem_cons.1 hts
    intro l hl
    rw [rest_cons] at hl
    rcases List.mem_append.1 hl with hl | hl
    · exact (mem_add ht hp hl).imp_right fun hpad => ⟨hpad.1, hpad.2.1.2.1⟩
    · exact ih hts (tidy_add ht) l hl

include hts in
/-- An indent is a line if the open line dangles and the tokens end its list, or if they leave an
empty item themselves. -/
theorem pad_mem_rest_iff (hp : p.Tidy i) :
    i.pad ∈ p.rest i ts ↔
      p.Dangles i ∧ Token.EndList ts ∨ i.width ≠ 0 ∧ Token.LeaveEmptyItem p.context ts := by
  induction ts generalizing p with
  | nil =>
    have hnil := Token.not_leaveEmptyItem_nil p.context
    rw [rest_nil]
    constructor
    · intro hpad
      rcases endsInk_or_of_mem_close hp hpad with hend | ⟨-, hdangles⟩
      · exact absurd (isBlank_pad i) hend.not_isBlank
      · exact Or.inl ⟨hdangles, Token.endList_nil⟩
    · rintro (⟨hdangles, -⟩ | ⟨-, hleave⟩)
      · exact mem_close_iff.2 ⟨hdangles.1.symm, pad_ne_nil hdangles.2.1⟩
      · exact absurd hleave hnil
  | cons t ts ih =>
    obtain ⟨ht, hts⟩ := List.forall_mem_cons.1 hts
    rw [rest_cons, List.mem_append, pad_mem_add_iff ht hp, ih hts (tidy_add ht),
      dangles_add_iff ht, context_add, Token.endList_cons_iff, Token.leaveEmptyItem_cons_iff]
    tauto

end Rest

end Page

/-- No line of a layout is empty, and the last character of a line is not blank unless the line is
an indent and nothing else.  There is such a line if and only if the indent has a width and the last
item of a list is left empty: free text in the list ends in a comma at the top level, and behind it
comes a clause, a join, or nothing. -/
theorem blank_lines (i : Indent) (raw : Text) :
    let tokens := (Statement.ofText raw).sql.tokens
    (∀ l ∈ Page.lines i tokens, l ≠ [] ∧ ((∃ u c, l = u ++ [c] ∧ isBlank c = false) ∨ l = i.pad)) ∧
      (i.pad ∈ Page.lines i tokens ↔ i.width ≠ 0 ∧ ∃ before t after,
        tokens = before ++ t :: after ∧ t.kind = .str ∧
          (before.foldl (fun context u => u.kind.contextAfter context) none).any Kind.listsItems ∧
          (∃ u, t.text = u ++ [','] ∧ Nesting.start.after u = .start) ∧
          ∀ next ∈ after.head?, next.kind.opensClause = true ∨ next.kind = .join) := by
  intro tokens
  have hsolid : ∀ t ∈ tokens, t.text.IsSolid := fun _ => Text.isSolid_of_mem_tokens
  have htidy : Page.blank.Tidy i := Or.inl rfl
  constructor
  · intro l hl
    rcases Page.mem_rest hsolid htidy l hl with hend | ⟨rfl, hwidth⟩
    · exact ⟨hend.ne_nil, Or.inl hend⟩
    · exact ⟨Page.pad_ne_nil hwidth, Or.inr rfl⟩
  · have hblank : ¬ Page.blank.Dangles i := fun h => Bool.false_ne_true h.2.2
    rw [← Page.rest_blank, Page.pad_mem_rest_iff hsolid htidy, or_iff_right fun h => hblank h.1]
    simp only [Token.LeaveEmptyItem, Token.Strands, Token.EndList, Token.endsList, and_assoc,
      Bool.or_eq_true, beq_iff_eq]
    rfl

/-- Not every line has a character that is not blank. -/
theorem exists_blank_line :
    ¬ ∀ (i : Indent) (raw : Text), ∀ l ∈ Page.lines i (Statement.ofText raw).sql.tokens,
      l ≠ [] ∧ ¬ l.IsBlank ∧ ∀ c ∈ l.getLast?, isBlank c = false := by
  intro h
  have hline : Indent.usual.pad ∈
      Page.lines .usual (Statement.ofText "select a,".toList).sql.tokens := by
    decide +kernel
  exact (h .usual "select a,".toList _ hline).2.1 (Page.isBlank_pad .usual)

/-- Commas in front of an item, behind one another, and in front of a clause: only the last of them
is followed by a line of blank characters, and without an indent there is no such line. -/
example :
    Page.lines .usual (Statement.ofText "select ,a,,b, from t".toList).sql.tokens =
        ["SELECT", "    ,", "    a,", "    ,", "    b,", "    ", "FROM", "    t"].map
          String.toList ∧
      Page.lines ⟨0, by decide⟩ (Statement.ofText "select ,a,,b, from t".toList).sql.tokens =
        ["SELECT", ",", "a,", ",", "b,", "FROM", "t"].map String.toList := by
  decide +kernel

end SqlLayout
