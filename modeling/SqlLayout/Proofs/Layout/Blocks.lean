import Mathlib.Data.List.ReduceOption
import SqlLayout.Proofs.Layout.EmptyItems

/-!
# Layouts block by block

A page takes tokens one by one and decides about each of them by its open line and by the latest
clause or join.  The lines can also be told from all tokens at once.  Each clause, each join, and
each `AND` and `OR` in a condition opens a block that goes on to the next of them, and every block
has lines of its own:

* a block of `LIMIT` or `OFFSET` is one line at the left margin;
* a block of a join, of `AND` or of `OR` is one line behind the indent, but at the left margin if no
  clause or join precedes it;
* a block of `WHERE` or `HAVING` is the clause on a line, and all the rest of it on the next one,
  behind the indent;
* a block of `SELECT`, `FROM`, `GROUP BY` or `ORDER BY` is the clause on a line, and the list behind
  it, in which each comma between two items ends a line and all lines stand behind the indent.

On a line the texts of tokens, or of items, stand with single spaces between them.  Tokens in front
of all blocks make one line at the left margin.

## Main definitions

* `Token.governor` : the kind of the latest clause or join among tokens.
* `Block` : tokens that are laid out together; `Block.cut` cuts tokens into blocks.
* `Token.cells`, `Block.listLines` : the lines of a list.
* `Block.lines`, `Block.layout` : the lines of a block, and of tokens block by block.

## Main results

* `Page.rest_of_opensBlock` : what opens a block finishes the open line.
* `Page.rest_line`, `Page.rest_list` : tokens that open no block, on a line and in a list.
* `lines_eq_layout` : the lines of a page are those of its blocks.
-/

namespace SqlLayout

/-! ### Blocks -/

namespace Kind

/-- Whether a token of a kind governs the tokens behind it: clauses and joins do. -/
def governs (k : Kind) : Bool := k.opensClause || k == join

/-- Whether the conditions behind a clause or join of a kind have lines of their own. -/
def holdsConditions : Kind → Bool
  | .where | having | join => true
  | _ => false

/-- Whether a token of a kind opens a block, where `governor` is the kind that governs it. -/
def opensBlock (governor : Option Kind) (k : Kind) : Bool :=
  k.governs || k.joinsConditions && governor.any holdsConditions

end Kind

/-- The kind that governs a token: that of the latest clause or join among the tokens in front of
it. -/
def Token.governor (before : List Token) : Option Kind :=
  (before.reverse.find? fun t => t.kind.governs).map Token.kind

/-- Tokens that are laid out together: the one that opens the block, with the kind that governs it,
and those behind it. -/
structure Block where
  governor : Option Kind
  opening : Token
  body : List Token

/-- Texts on one line, with single spaces between them. -/
def Text.spaced (ts : List Text) : Text := [' '].intercalate ts

/-- The texts of tokens on one line. -/
def Token.line (ts : List Token) : Text := Text.spaced (ts.map Token.text)

/-- What a token brings into a list: the items of free text, with `none` for each comma between two
of them, and the text of any other token. -/
def Token.cells (t : Token) : List (Option Text) :=
  if t.kind = .str then (t.text.items.map some).intersperse none else [some t.text]

namespace Block

/-- The tokens of a block. -/
def tokens (b : Block) : List Token := b.opening :: b.body

/-- Tokens cut in front of each token that opens a block: those in front of all blocks, and the
blocks, where `before` stands in front of the tokens. -/
def cut (before : List Token) : List Token → List Token × List Block
  | [] => ([], [])
  | t :: ts =>
    let behind := cut (before ++ [t]) ts
    if t.kind.opensBlock (Token.governor before) then
      ([], ⟨Token.governor before, t, behind.1⟩ :: behind.2)
    else (t :: behind.1, behind.2)

/-- Lines with a comma at the end of each but the last. -/
def withCommas : List Text → List Text
  | [] => []
  | [l] => [l]
  | l :: l' :: ls => (l ++ [',']) :: withCommas (l' :: ls)

/-- The lines of cells: each comma ends a line. -/
def cellLines (i : Indent) (cells : List (Option Text)) : List Text :=
  withCommas ((cells.splitOn none).map fun row => i.pad ++ Text.spaced row.reduceOption)

/-- The lines of the list behind a clause. -/
def listLines (i : Indent) (ts : List Token) : List Text :=
  if ts.isEmpty then [] else cellLines i (ts.flatMap Token.cells)

/-- The lines of a block. -/
def lines (i : Indent) (b : Block) : List Text :=
  match b.opening.kind with
  | .limit | .offset => [Token.line b.tokens]
  | .where | .having =>
    b.opening.text :: if b.body.isEmpty then [] else [i.pad ++ Token.line b.body]
  | .select | .from | .group | .order => b.opening.text :: listLines i b.body
  | _ => [(if b.governor.isSome then i.pad else []) ++ Token.line b.tokens]

/-- The lines of tokens, block by block. -/
def layout (i : Indent) (ts : List Token) : List Text :=
  (if (cut [] ts).1.isEmpty then [] else [Token.line (cut [] ts).1]) ++
    (cut [] ts).2.flatMap (lines i)

end Block

/-! ### The kind that governs a token -/

theorem Kind.contextAfter_of_governs {k : Kind} (h : k.governs = true) (context : Option Kind) :
    k.contextAfter context = some k := by
  cases k with
  | on | compare | and | or | «in» | str => cases h
  | _ => rfl

theorem Kind.contextAfter_of_not_governs {k : Kind} (h : k.governs = false)
    (context : Option Kind) : k.contextAfter context = context := by
  cases k with
  | on | compare | and | or | «in» | str => rfl
  | _ => cases h

theorem Kind.governs_of_not_opensBlock {governor : Option Kind} {k : Kind}
    (h : k.opensBlock governor = false) : k.governs = false :=
  (Bool.or_eq_false_iff.1 h).1

/-- A page keeps the kind that governs the next token. -/
theorem Token.governor_concat (before : List Token) (t : Token) :
    governor (before ++ [t]) = t.kind.contextAfter (governor before) := by
  rw [governor, List.reverse_concat, List.find?_cons]
  cases h : t.kind.governs with
  | true => rw [Kind.contextAfter_of_governs h]; rfl
  | false => rw [Kind.contextAfter_of_not_governs h]; rfl

/-- The tokens in front of all blocks, and the blocks, make up the tokens. -/
theorem Block.append_cut (before ts : List Token) :
    (cut before ts).1 ++ (cut before ts).2.flatMap tokens = ts := by
  induction ts generalizing before with
  | nil => rfl
  | cons t ts ih =>
    have ih := ih (before ++ [t])
    rw [cut]
    split
    · exact congrArg (t :: ·) ih
    · exact congrArg (t :: ·) ih

theorem Block.mem_of_mem_cut {before ts : List Token} {t : Token} (h : t ∈ (cut before ts).1) :
    t ∈ ts := by
  rw [← append_cut before ts]
  exact List.mem_append_left _ h

/-- Of the tokens in front of the first block none opens one. -/
theorem Block.not_opensBlock_of_mem_cut (before ts : List Token) :
    ∀ t ∈ (cut before ts).1, t.kind.opensBlock (Token.governor before) = false := by
  induction ts generalizing before with
  | nil => exact List.forall_mem_nil _
  | cons t ts ih =>
    rw [cut]
    split
    · exact List.forall_mem_nil _
    · rename_i hopens
      have hopens := Bool.eq_false_iff.2 hopens
      have ih := ih (before ++ [t])
      rw [Token.governor_concat,
        Kind.contextAfter_of_not_governs (Kind.governs_of_not_opensBlock hopens)] at ih
      exact List.forall_mem_cons.2 ⟨hopens, ih⟩

/-! ### Texts on one line -/

namespace Text

theorem spaced_cons_cons (t u : Text) (ts : List Text) :
    spaced (t :: u :: ts) = spaced ((t ++ ' ' :: u) :: ts) := by
  cases ts with
  | nil => simp [spaced, List.intercalate]
  | cons v ts => simp [spaced, List.intercalate_cons_cons]

theorem append_spaced (s t : Text) (ts : List Text) :
    s ++ spaced (t :: ts) = spaced ((s ++ t) :: ts) := by
  cases ts with
  | nil => simp [spaced, List.intercalate]
  | cons u ts => simp [spaced, List.intercalate_cons_cons]

theorem spaced_concat {ts : List Text} (h : ts ≠ []) (t : Text) :
    spaced (ts ++ [t]) = spaced ts ++ ' ' :: t := by
  induction ts with
  | nil => exact absurd rfl h
  | cons u ts ih =>
    cases ts with
    | nil => simp [spaced, List.intercalate]
    | cons v ts =>
      have ih := ih (List.cons_ne_nil v ts)
      simp only [spaced, List.cons_append, List.intercalate_cons_cons, List.append_assoc] at ih ⊢
      rw [ih]

end Text

/-! ### Cells on lines -/

namespace Block

variable {i : Indent}

theorem reduceOption_map_some (row : List Text) : (row.map some).reduceOption = row := by
  simp [List.reduceOption]

/-- The texts in front of the first comma make a line. -/
theorem cellLines_comma (row : List Text) (cells : List (Option Text)) :
    cellLines i (row.map some ++ none :: cells) =
      (i.pad ++ Text.spaced row ++ [',']) :: cellLines i cells := by
  obtain ⟨first, rows, hrows⟩ := List.exists_cons_of_ne_nil (List.splitOn_ne_nil none cells)
  rw [cellLines, cellLines, List.splitOn_append_cons_self_of_not_mem (by simp), hrows,
    List.map_cons, List.map_cons, withCommas, reduceOption_map_some]

/-- Texts without a comma make one line. -/
theorem cellLines_of_no_comma (row : List Text) :
    cellLines i (row.map some) = [i.pad ++ Text.spaced row] := by
  rw [cellLines, List.splitOn_eq_singleton (by simp), List.map_singleton, withCommas,
    reduceOption_map_some]

end Block

namespace Page

variable {i : Indent} {p : Page}

/-! ### Tokens that open blocks -/

theorem showsCondition_eq (p : Page) :
    p.showsCondition = p.context.any Kind.holdsConditions := by
  obtain ⟨line, context⟩ := p
  cases context with
  | none => rfl
  | some k => cases k <;> rfl

/-- What opens a block finishes the open line.  The page behind it depends on what governs it
only. -/
theorem add_of_opensBlock {t : Token} (h : t.kind.opensBlock p.context = true) :
    p.add i t =
      (p.close ++ (Page.add i ⟨[], p.context⟩ t).1, (Page.add i ⟨[], p.context⟩ t).2) := by
  have hclose : (⟨[], p.context⟩ : Page).close = [] := rfl
  obtain ⟨kind, text⟩ := t
  cases kind with
  | limit | offset | select | «from» | «where» | group | having | order => simp [add, hclose]
  | join => simp [add, hclose, margin]
  | and | or =>
    have hshows : p.showsCondition = true := (showsCondition_eq p).trans h
    have hshows' : (⟨[], p.context⟩ : Page).showsCondition = true := hshows
    simp [add, hclose, margin, hshows, hshows']
  | on | compare | «in» | str => cases h

theorem rest_of_opensBlock {t : Token} (h : t.kind.opensBlock p.context = true) (ts : List Token) :
    p.rest i (t :: ts) = p.close ++ Page.rest i ⟨[], p.context⟩ (t :: ts) := by
  rw [rest_cons, rest_cons, add_of_opensBlock h, List.append_assoc]

/-! ### Tokens on one line -/

/-- A token that opens no block is written on the open line, or in a list. -/
theorem add_of_not_opensBlock {t : Token} (h : t.kind.opensBlock p.context = false) :
    p.add i t = if t.kind = .str ∧ p.showsList = true then p.writeItems i t.text.items
      else ([], p.write i t.text) := by
  obtain ⟨kind, text⟩ := t
  cases kind with
  | limit | offset | select | «from» | «where» | group | having | order | join => cases h
  | and | or =>
    have hshows : p.showsCondition = false := (showsCondition_eq p).trans h
    simp [add, hshows]
  | on | compare | «in» => simp [add]
  | str => simp [add]

/-- Outside of lists tokens that open no block go on with a line that is not empty. -/
theorem rest_line {ts : List Token} (hlist : p.showsList = false) (hline : p.line ≠ [])
    (hts : ∀ t ∈ ts, t.kind.opensBlock p.context = false) :
    p.rest i ts = [Text.spaced (p.line :: ts.map Token.text)] := by
  induction ts generalizing p with
  | nil => simp [rest_nil, close, hline, Text.spaced, List.intercalate]
  | cons t ts ih =>
    obtain ⟨ht, hts⟩ := List.forall_mem_cons.1 hts
    have hadd : p.add i t = ([], { p with line := p.line ++ ' ' :: t.text }) := by
      simp [add_of_not_opensBlock ht, hlist, write, hline]
    rw [rest_cons, hadd, List.map_cons, Text.spaced_cons_cons]
    exact ih (p := { p with line := p.line ++ ' ' :: t.text }) hlist (by simp) hts

/-- Outside of lists the first of some tokens that open no block begins a line. -/
theorem rest_line_of_nil {t : Token} {ts : List Token} (hlist : p.showsList = false)
    (hline : p.line = []) (ht : t.text ≠ [])
    (hts : ∀ u ∈ t :: ts, u.kind.opensBlock p.context = false) :
    p.rest i (t :: ts) = [p.margin i ++ Token.line (t :: ts)] := by
  obtain ⟨hopens, hts⟩ := List.forall_mem_cons.1 hts
  have hadd : p.add i t = ([], { p with line := p.margin i ++ t.text }) := by
    simp [add_of_not_opensBlock hopens, hlist, write, hline]
  rw [rest_cons, hadd, Token.line, List.map_cons, Text.append_spaced]
  exact rest_line (p := { p with line := p.margin i ++ t.text }) hlist (by simp [ht]) hts

/-! ### Tokens in a list -/

/-- The open line of a list holds given texts behind the indent, and nothing if there are none. -/
def Shows (i : Indent) (p : Page) (row : List Text) : Prop :=
  p.line = if row.isEmpty then [] else i.pad ++ Text.spaced row

theorem shows_nil (context : Option Kind) : Page.Shows i ⟨[], context⟩ [] := rfl

section List

variable (hi : i.width ≠ 0) (hlist : p.showsList = true) {row : List Text}

include hi hlist in
/-- In a list a text is put behind those on the open line. -/
theorem Shows.write (hrow : p.Shows i row) (t : Text) : (p.write i t).Shows i (row ++ [t]) := by
  have hpad := pad_ne_nil hi
  have hmargin := margin_of_showsList (i := i) hlist
  unfold Shows at hrow ⊢
  cases row with
  | nil =>
    have hline : p.line = [] := hrow
    simp [Page.write, hline, hmargin, Text.spaced, List.intercalate]
  | cons u row =>
    have hline : p.line = i.pad ++ Text.spaced (u :: row) := hrow
    have hconcat := Text.spaced_concat (List.cons_ne_nil u row) t
    rw [List.cons_append] at hconcat
    simp [Page.write, hline, hpad, hconcat]

include hi hlist in
/-- Items finish the lines of the commas between them, and leave texts on the open line. -/
theorem Shows.writeItems (hrow : p.Shows i row) {items : List Text} (hitems : items ≠ []) :
    ∃ row' ≠ [], (p.writeItems i items).2.Shows i row' ∧ ∀ cells,
      Block.cellLines i (row.map some ++ ((items.map some).intersperse none ++ cells)) =
        (p.writeItems i items).1 ++ Block.cellLines i (row'.map some ++ cells) := by
  induction items generalizing p row with
  | nil => exact absurd rfl hitems
  | cons item items ih =>
    have hwrite := hrow.write hi hlist item
    cases items with
    | nil =>
      refine ⟨row ++ [item], by simp, hwrite, fun cells => ?_⟩
      simp [Page.writeItems]
    | cons next items =>
      obtain ⟨row', hne, hrow', hcells⟩ :=
        ih (p := ⟨[], p.context⟩) hlist (shows_nil p.context) (List.cons_ne_nil next items)
      refine ⟨row', hne, hrow', fun cells => ?_⟩
      have hline : (p.write i item).line = i.pad ++ Text.spaced (row ++ [item]) := by
        rw [hwrite]
        simp
      have hcomma := Block.cellLines_comma (i := i) (row ++ [item])
        (((next :: items).map some).intersperse none ++ cells)
      rw [writeItems_cons_cons, hline, List.cons_append, ← hcells cells, List.map_nil,
        List.nil_append, ← hcomma]
      simp

include hi in
/-- In a list tokens that open no block make the lines of their cells. -/
theorem rest_list (hlist : p.showsList = true) (hrow : p.Shows i row) {ts : List Token}
    (hne : row ≠ [] ∨ ts ≠ []) (hts : ∀ t ∈ ts, t.kind.opensBlock p.context = false) :
    p.rest i ts = Block.cellLines i (row.map some ++ ts.flatMap Token.cells) := by
  induction ts generalizing p row with
  | nil =>
    have hrow' : row ≠ [] := hne.resolve_right fun h => h rfl
    have hline : p.line = i.pad ++ Text.spaced row := by rw [hrow]; simp [hrow']
    have hpad := pad_ne_nil hi
    rw [rest_nil, List.flatMap_nil, List.append_nil, Block.cellLines_of_no_comma, close, hline]
    simp [hpad]
  | cons t ts ih =>
    obtain ⟨ht, hts⟩ := List.forall_mem_cons.1 hts
    have hadd := add_of_not_opensBlock (i := i) ht
    have hcontext := context_add i p t
    rw [Kind.contextAfter_of_not_governs (Kind.governs_of_not_opensBlock ht)] at hcontext
    have hshows : (p.add i t).2.showsList = true := by
      rw [showsList_eq, hcontext, ← showsList_eq, hlist]
    rw [← hcontext] at hts
    rw [rest_cons, List.flatMap_cons, Token.cells]
    by_cases hkind : t.kind = .str
    · rw [if_pos ⟨hkind, hlist⟩] at hadd
      obtain ⟨row', hne', hrow', hcells⟩ := hrow.writeItems hi hlist t.text.items_ne_nil
      rw [if_pos hkind, hcells, ← hadd]
      rw [← hadd] at hrow'
      rw [ih hshows hrow' (Or.inl hne') hts]
    · rw [if_neg fun h => hkind h.1] at hadd
      have hwrite := hrow.write hi hlist t.text
      rw [if_neg hkind]
      have hrow' : (p.add i t).2.Shows i (row ++ [t.text]) := by rw [hadd]; exact hwrite
      rw [ih hshows hrow' (Or.inl (by simp)) hts, hadd]
      simp

end List

/-! ### Blocks -/

section Block

variable (hi : i.width ≠ 0)

include hi in
/-- The lines of a block, laid out on a page without an open line. -/
theorem rest_block {governor : Option Kind} {t : Token} {ts : List Token}
    (ht : t.kind.opensBlock governor = true) (htexts : ∀ u ∈ t :: ts, u.text ≠ [])
    (hts : ∀ u ∈ ts, u.kind.opensBlock (t.kind.contextAfter governor) = false) :
    Page.rest i ⟨[], governor⟩ (t :: ts) = Block.lines i ⟨governor, t, ts⟩ := by
  obtain ⟨kind, text⟩ := t
  obtain ⟨htext, hbody⟩ := List.forall_mem_cons.1 htexts
  have hline : margin i ⟨[], governor⟩ ++ text ≠ [] :=
    List.append_ne_nil_of_right_ne_nil _ htext
  rw [rest_cons]
  cases kind with
  | limit | offset => exact rest_line rfl htext hts
  | «where» | having =>
    change text :: Page.rest i ⟨[], some _⟩ ts = _
    cases ts with
    | nil => rfl
    | cons u ts =>
      exact congrArg (text :: ·) (rest_line_of_nil rfl rfl (hbody u List.mem_cons_self) hts)
  | select | «from» | group | order =>
    change text :: Page.rest i ⟨[], some _⟩ ts = _
    cases ts with
    | nil => rfl
    | cons u ts =>
      exact congrArg (text :: ·)
        (rest_list hi rfl (shows_nil (some _)) (Or.inr (List.cons_ne_nil u ts)) hts)
  | join =>
    refine (rest_line (p := ⟨_, some .join⟩) rfl hline hts).trans ?_
    exact congrArg ([·]) (Text.append_spaced _ text _).symm
  | and | or =>
    have hconditions : governor.any Kind.holdsConditions = true := ht
    have hshows : (⟨[], governor⟩ : Page).showsCondition = true :=
      (showsCondition_eq _).trans hconditions
    have hlist := showsList_of_showsCondition hshows
    simp only [add, if_pos hshows]
    refine (rest_line (p := ⟨margin i ⟨[], governor⟩ ++ text, governor⟩) hlist hline hts).trans ?_
    exact congrArg ([·]) (Text.append_spaced _ text _).symm
  | on | compare | «in» | str => cases ht

include hi in
/-- The lines that tokens make on a page are those of the open line and of the blocks behind it. -/
theorem rest_eq_blocks (before : List Token) {ts : List Token}
    (hp : p.context = Token.governor before) (hts : ∀ t ∈ ts, t.text ≠ []) :
    p.rest i ts = p.rest i (Block.cut before ts).1 ++
      (Block.cut before ts).2.flatMap (Block.lines i) := by
  induction ts generalizing p before with
  | nil => exact (List.append_nil _).symm
  | cons t ts ih =>
    obtain ⟨ht, hts'⟩ := List.forall_mem_cons.1 hts
    -- this token and those behind it, on any page that the same token governs
    have hcut {q : Page} (hq : q.context = Token.governor before) :
        q.rest i (t :: ts) = q.rest i (t :: (Block.cut (before ++ [t]) ts).1) ++
          (Block.cut (before ++ [t]) ts).2.flatMap (Block.lines i) := by
      have hcontext : (q.add i t).2.context = Token.governor (before ++ [t]) := by
        rw [context_add, hq, Token.governor_concat]
      rw [rest_cons, rest_cons, ih (before ++ [t]) hcontext hts', List.append_assoc]
    rw [Block.cut]
    split
    · rename_i hopens
      have hbody := Block.not_opensBlock_of_mem_cut (before ++ [t]) ts
      rw [Token.governor_concat] at hbody
      have htexts : ∀ u ∈ t :: (Block.cut (before ++ [t]) ts).1, u.text ≠ [] :=
        List.forall_mem_cons.2 ⟨ht, fun u hu => hts' u (Block.mem_of_mem_cut hu)⟩
      rw [rest_of_opensBlock (hp ▸ hopens), hp, hcut rfl, rest_block hi hopens htexts hbody]
      rfl
    · exact hcut hp

end Block

end Page

/-- The lines of a page are those of its blocks, if the indent has a width and no token is without a
text. -/
theorem lines_eq_layout (i : Indent) (hi : i.width ≠ 0) (ts : List Token)
    (hts : ∀ t ∈ ts, t.text ≠ []) : Page.lines i ts = Block.layout i ts := by
  have hfront : Page.rest i .blank (Block.cut [] ts).1 =
      if (Block.cut [] ts).1.isEmpty then [] else [Token.line (Block.cut [] ts).1] := by
    have htexts : ∀ t ∈ (Block.cut [] ts).1, t.text ≠ [] := fun t ht =>
      hts t (Block.mem_of_mem_cut ht)
    have hopens := Block.not_opensBlock_of_mem_cut [] ts
    cases hcut : (Block.cut [] ts).1 with
    | nil => rfl
    | cons t front =>
      rw [hcut] at htexts hopens
      exact Page.rest_line_of_nil rfl rfl (htexts t List.mem_cons_self) hopens
  rw [← Page.rest_blank, Page.rest_eq_blocks hi [] rfl hts, hfront, Block.layout]

/-- Tokens in front of all blocks, a list with empty items, conditions of a join, and `OR` behind
`LIMIT`. -/
theorem lines_eq_layout_of_every_sort :
    (Indent.usual.width ≠ 0 ∧
      ∀ t ∈ Text.tokens "x, y select ,a, b = f(c, d), join t on u and v limit 1 or 2".toList,
        t.text ≠ []) ∧
    Page.lines .usual
        (Text.tokens "x, y select ,a, b = f(c, d), join t on u and v limit 1 or 2".toList) =
      ["x, y", "SELECT", "    ,", "    a,", "    b = f(c, d),", "    ", "    JOIN t ON u",
        "    AND v", "LIMIT 1 OR 2"].map String.toList := by
  have hi : Indent.usual.width ≠ 0 := by decide
  have hts : ∀ t ∈ Text.tokens "x, y select ,a, b = f(c, d), join t on u and v limit 1 or 2".toList,
      t.text ≠ [] := by
    decide +kernel
  exact ⟨⟨hi, hts⟩, (lines_eq_layout .usual hi _ hts).trans (by decide +kernel)⟩

end SqlLayout
