import SqlLayout.Layout.Page
import SqlLayout.Proofs.Layout.Pieces
import SqlLayout.Proofs.Scan.Shapes
import SqlLayout.Proofs.Scan.Spans

/-!
# What is on a page

Tokens are laid out with new gaps between the lexemes that they have been read from, and with
nothing else.  Every token begins behind a gap.  Inside a token gaps stay gaps, and in the body of a
list there is one behind each comma at the top level, and none in front of it.

## Main definitions

* `Kind.listsItems`, `Kind.contextAfter` : where lists are laid out.
* `Mark.reflow` : marks with the gaps that their lexemes get when they are laid out.
* `Page.Flows` : lexemes are put on a page.

## Main results

* `Page.flows_addAll` : the tokens of marks are put on a page as the marks with new gaps.
* `reformat_lexemes` : a layout has the lexemes of the clean statement.
-/

namespace SqlLayout

/-! ### New gaps for marks -/

namespace Kind

/-- Whether the body behind a clause of a kind is a list. -/
def listsItems : Kind → Bool
  | select | .from | group | order => true
  | _ => false

/-- The kind of the latest clause or join behind a token, where `context` is the kind in front of
it. -/
def contextAfter (context : Option Kind) (k : Kind) : Option Kind :=
  match k with
  | select | .from | .where | group | having | order | limit | offset | join => some k
  | _ => context

end Kind

theorem Page.showsList_eq (p : Page) : p.showsList = p.context.any Kind.listsItems := by
  obtain ⟨line, context⟩ := p
  cases context with
  | none => rfl
  | some k => cases k <;> rfl

/-- Marks with the gaps that their lexemes get when they are laid out, where `context` is the kind
of the latest clause or join, `d` the number of open parentheses, and `fresh` says that a token or
an item begins. -/
def Mark.reflow (context : Option Kind) : Nat → Bool → List Mark → List Mark
  | _, _, [] => []
  | d, fresh, free x :: M =>
    let lists := context.any Kind.listsItems
    free (x.respaced lists d fresh) ::
      reflow context (x.chunk.depthAfter d) (lists && x.separates d) M
  | _, _, keyword source token :: M =>
    keyword (Lexeme.setOff source) token :: reflow (token.kind.contextAfter context) 0 true M

theorem Mark.reflow_map_free (context : Option Kind) (d : Nat) (fresh : Bool) (run : List Lexeme) :
    reflow context d fresh (run.map free) =
      (Lexeme.respace (context.any Kind.listsItems) d fresh run).map free := by
  induction run generalizing d fresh with
  | nil => rfl
  | cons x run ih =>
    rw [List.map_cons, reflow, ih]
    rfl

theorem Mark.reflow_append_keyword (context : Option Kind) (d : Nat) (fresh : Bool)
    (run src : List Lexeme) (token : Token) (M : List Mark) :
    reflow context d fresh (run.map free ++ keyword src token :: M) =
      (Lexeme.respace (context.any Kind.listsItems) d fresh run).map free ++
        keyword (Lexeme.setOff src) token :: reflow (token.kind.contextAfter context) 0 true M := by
  induction run generalizing d fresh with
  | nil => rfl
  | cons x run ih =>
    rw [List.map_cons, List.cons_append, reflow, ih]
    rfl

/-- New gaps do not change chunks. -/
theorem Mark.map_chunk_reflow (context : Option Kind) (d : Nat) (fresh : Bool) (M : List Mark) :
    ((reflow context d fresh M).flatMap source).map Lexeme.chunk =
      (M.flatMap source).map Lexeme.chunk := by
  induction M generalizing context d fresh with
  | nil => rfl
  | cons m M ih =>
    cases m with
    | free x =>
      rw [reflow, List.flatMap_cons, List.flatMap_cons, List.map_append, List.map_append, ih]
      rfl
    | keyword src token =>
      rw [reflow, List.flatMap_cons, List.flatMap_cons, List.map_append, List.map_append, ih,
        source, Lexeme.map_chunk_setOff]
      rfl

/-! ### Writing on a page -/

namespace Page

theorem writeItems_cons_cons (i : Indent) (p : Page) (item next : Text) (items : List Text) :
    p.writeItems i (item :: next :: items) =
      (((p.write i item).line ++ [',']) ::
          (writeItems i { p with line := [] } (next :: items)).1,
        (writeItems i { p with line := [] } (next :: items)).2) :=
  rfl

theorem context_writeItems (i : Indent) (p : Page) (items : List Text) :
    (p.writeItems i items).2.context = p.context := by
  induction items generalizing p with
  | nil => rfl
  | cons item items ih =>
    cases items with
    | nil => rfl
    | cons item' items => exact ih _

/-- The context behind a token depends on its kind only. -/
theorem context_add (i : Indent) (p : Page) (t : Token) :
    (p.add i t).2.context = t.kind.contextAfter p.context := by
  obtain ⟨kind, text⟩ := t
  cases kind with
  | str =>
    simp only [add]
    split
    · exact context_writeItems i p _
    · rfl
  | and | or =>
    simp only [add]
    split <;> rfl
  | _ => rfl

theorem addAll_singleton (i : Indent) (p : Page) (t : Token) : p.addAll i [t] = p.add i t := by
  simp [addAll]

theorem context_addAll_freeTokens (i : Indent) (p : Page) (t : Text) :
    (p.addAll i t.freeTokens).2.context = p.context := by
  unfold Text.freeTokens
  split
  · rfl
  · rw [addAll_singleton]
    exact context_add i p _

theorem isBlank_pad (i : Indent) : i.pad.IsBlank := by
  intro c hc
  rw [List.eq_of_mem_replicate hc, isBlank_space]

theorem isBlank_margin (i : Indent) (p : Page) : Text.IsBlank (p.margin i) := by
  rw [margin]
  split
  · exact isBlank_pad i
  · exact Text.isBlank_nil

theorem flatMap_flow_close (p : Page) : p.close.flatMap Text.flow = p.line.flow := by
  unfold close
  split
  · rename_i h
    rw [List.isEmpty_iff.1 h]
    rfl
  · exact List.flatMap_singleton _ _

/-- What is written flows behind what is on the line. -/
theorem flow_write_append {i : Indent} {p : Page} (h : p.line.Closed) (t u : Text) :
    Text.flow ((p.write i t).line ++ u) = p.line.flow ++ Text.flow (t ++ u) := by
  unfold write
  cases hline : p.line with
  | nil =>
    simp only [List.isEmpty_nil, if_true, List.append_assoc, Text.flow_nil, List.nil_append]
    exact Text.flow_gap_append (p.isBlank_margin i) _
  | cons c line =>
    simp only [List.isEmpty_cons, Bool.false_eq_true, if_false, List.append_assoc,
      List.cons_append]
    rw [hline] at h
    exact h.flow_append isBlank_space _

theorem flow_write {i : Indent} {p : Page} (h : p.line.Closed) (t : Text) :
    (p.write i t).line.flow = p.line.flow ++ t.flow := by
  have hflow := flow_write_append (i := i) h t []
  rwa [List.append_nil, List.append_nil] at hflow

theorem closed_write {i : Indent} {p : Page} (h : p.line.Closed) {t : Text} (ht : t.Closed) :
    (p.write i t).line.Closed := by
  unfold write
  split
  · exact (Text.closed_of_isBlank (p.isBlank_margin i)).append ht
  · exact h.append ht

/-- Lexemes are put on a page: they flow behind what was on the open line, all finished lines end
outside of quotes, and the open line does so too if the lexemes are closed. -/
structure Flows (p : Page) (L : List Lexeme) (after : List Text × Page) : Prop where
  flow : after.1.flatMap Text.flow ++ after.2.line.flow = p.line.flow ++ L
  closed : ∀ l ∈ after.1, l.Closed
  closed_line : (∀ x ∈ L, x.chunk.Closed) → after.2.line.Closed

theorem Flows.append {p : Page} {L M : List Lexeme} {r r' : List Text × Page} (h : p.Flows L r)
    (h' : r.2.Flows M r') : p.Flows (L ++ M) (r.1 ++ r'.1, r'.2) := by
  refine ⟨?_, ?_, fun hclosed => h'.closed_line fun x hx => hclosed x (List.mem_append_right L hx)⟩
  · rw [List.flatMap_append, List.append_assoc, h'.flow, ← List.append_assoc, h.flow,
      List.append_assoc]
  · intro l hl
    rcases List.mem_append.1 hl with hl | hl
    · exact h.closed l hl
    · exact h'.closed l hl

theorem flows_nil {p : Page} (h : p.line.Closed) : p.Flows [] ([], p) :=
  ⟨(List.append_nil _).symm, List.forall_mem_nil _, fun _ => h⟩

theorem flows_write {i : Indent} {p : Page} (h : p.line.Closed) {t : Text} {L : List Lexeme}
    (hflow : t.flow = L) (ht : (∀ x ∈ L, x.chunk.Closed) → t.Closed) :
    p.Flows L ([], p.write i t) := by
  refine ⟨?_, List.forall_mem_nil _, fun hL => closed_write h (ht hL)⟩
  rw [← hflow]
  exact flow_write h t

theorem closed_of_mem_close {p : Page} (h : p.line.Closed) : ∀ l ∈ p.close, l.Closed := by
  intro l hl
  unfold close at hl
  split at hl
  · cases hl
  · rwa [List.mem_singleton.1 hl]

theorem flows_close {p : Page} (h : p.line.Closed) {q : Page} {L : List Lexeme}
    (hflow : q.line.flow = L) (hq : q.line.Closed) : p.Flows L (p.close, q) := by
  refine ⟨?_, closed_of_mem_close h, fun _ => hq⟩
  rw [flatMap_flow_close, hflow]

theorem flows_close_line {p : Page} (h : p.line.Closed) {t : Text} {L : List Lexeme}
    (hflow : t.flow = L) (ht : t.Closed) (context : Option Kind) :
    p.Flows L (p.close ++ [t], ⟨[], context⟩) := by
  refine ⟨?_, fun l hl => ?_, fun _ => rfl⟩
  · rw [List.flatMap_append, flatMap_flow_close, List.flatMap_singleton, hflow]
    exact List.append_nil _
  · rcases List.mem_append.1 hl with hl | hl
    · exact closed_of_mem_close h l hl
    · rwa [List.mem_singleton.1 hl]

/-- A keyword token flows as it is. -/
theorem flows_add_keyword (i : Indent) {p : Page} (h : p.line.Closed) {t : Token}
    (hkind : t.kind ≠ .str) {L : List Lexeme} (hflow : t.text.flow = L) (ht : t.text.Closed) :
    p.Flows L (p.add i t) := by
  have hmargin : Text.flow (p.margin i ++ t.text) = L := by
    rw [Text.flow_gap_append (p.isBlank_margin i), hflow]
  have hclosed : (p.margin i ++ t.text).Closed :=
    (Text.closed_of_isBlank (p.isBlank_margin i)).append ht
  obtain ⟨kind, text⟩ := t
  cases kind with
  | str => exact absurd rfl hkind
  | limit | offset => exact flows_close h hflow ht
  | select | «from» | «where» | group | having | order => exact flows_close_line h hflow ht _
  | join => exact flows_close h hmargin hclosed
  | and | or =>
    cases hshows : p.showsCondition with
    | true =>
      simp only [add, hshows, if_true]
      exact flows_close h hmargin hclosed
    | false =>
      simp only [add, hshows, Bool.false_eq_true, if_false]
      exact flows_write h hflow fun _ => ht
  | on | compare | «in» => exact flows_write h hflow fun _ => ht

theorem flow_body_comma {P : List Lexeme} (h : Lexeme.Tight [] P)
    (hclosed : ∀ x ∈ P, x.chunk.Closed) :
    Text.flow (Lexeme.body P ++ [',']) =
      Lexeme.setOff P ++ [⟨if P.isEmpty then [' '] else [], .other ','⟩] := by
  have hcomma : Text.toLexemes [','] = [⟨[], .other ','⟩] := by decide
  rw [Text.flow, Text.toLexemes_append (h.closed_body hclosed) (by decide), h.toLexemes_body,
    Lexeme.body_eq_ofLexemes, Text.lastGap_ofLexemes h.bare, hcomma]
  cases P with
  | nil => rfl
  | cons x P => simp [Lexeme.bare, Lexeme.setOff, Lexeme.widen, Lexeme.plain]

/-- The items of a list flow with commas behind all of them but the last. -/
theorem flows_writeItems (i : Indent) {p : Page} (hp : p.line.Closed) {d : Nat}
    {L P : List Lexeme} {Ps : List (List Lexeme)} (h : Lexeme.Tight [] L)
    (hpieces : Lexeme.pieces d L = (P, Ps)) :
    p.Flows (Lexeme.flowOfPieces P Ps) (p.writeItems i ((P :: Ps).map Lexeme.body)) := by
  induction Ps generalizing p d L P with
  | nil =>
    obtain ⟨-, rfl⟩ := (Lexeme.exists_of_pieces_eq hpieces).resolve_right
      fun ⟨Q, Qs, _, _, hcons, _⟩ => List.cons_ne_nil Q Qs hcons.symm
    exact flows_write hp h.flow_body fun hclosed =>
      h.closed_body (Lexeme.forall_closed_congr hclosed (Lexeme.map_chunk_setOff L))
  | cons Q Qs ih =>
    obtain ⟨Q', Qs', x, M, heq, rfl, -, hM⟩ := (Lexeme.exists_of_pieces_eq hpieces).resolve_left
      fun hnil => List.cons_ne_nil Q Qs hnil.1
    obtain ⟨rfl, rfl⟩ := List.cons.inj heq
    have hclosed := h.closed_left (List.cons_ne_nil x M)
    have hbody := h.left.closed_body hclosed
    have hflows := ih (p := { p with line := [] }) rfl h.right.2.2.2.2 hM
    have hfirst : p.Flows (Lexeme.setOff P ++ [⟨if P.isEmpty then [' '] else [], .other ','⟩])
        ([(p.write i (Lexeme.body P)).line ++ [',']], { p with line := [] }) := by
      refine ⟨?_, fun l hl => ?_, fun _ => rfl⟩
      · rw [List.flatMap_singleton, flow_write_append hp, flow_body_comma h.left hclosed]
        exact List.append_nil _
      · rw [List.mem_singleton.1 hl]
        exact (closed_write hp hbody).append rfl
    have happend := hfirst.append hflows
    rw [List.append_assoc] at happend
    exact happend

/-- Free lexemes are put on a page with new gaps. -/
theorem flows_addAll_free (i : Indent) {p : Page} (hp : p.line.Closed) {run : List Lexeme}
    (h : Lexeme.Tight [] run) (hrun : Lexeme.Finished run) :
    p.Flows (Lexeme.respace (p.context.any Kind.listsItems) 0 true run)
      (p.addAll i (Text.freeTokens (Lexeme.body (run.map Lexeme.plain)))) := by
  by_cases hne : run = []
  · subst hne
    exact flows_nil hp
  · have hplain : Lexeme.Finished (run.map Lexeme.plain) :=
      hrun.congr (Lexeme.map_chunk_map_plain run).symm
    rw [Lexeme.freeTokens_body h.sound hne, h.map_plain.trimEnd_body hplain, addAll_singleton,
      ← showsList_eq]
    cases hlist : p.showsList with
    | true =>
      have hflows := flows_writeItems i hp h.map_plain
        (d := 0) (P := (Lexeme.pieces 0 (run.map Lexeme.plain)).1) rfl
      rw [← Lexeme.respace_eq_flowOfPieces, Lexeme.respace_map_plain,
        ← h.map_plain.items_body hplain] at hflows
      simp only [add, Token.str, hlist, if_true]
      exact hflows
    | false =>
      simp only [add, Token.str, hlist, Bool.false_eq_true, if_false]
      refine flows_write hp ?_ fun hclosed => h.map_plain.closed_body ?_
      · rw [h.map_plain.flow_body, Lexeme.setOff_map_plain, Lexeme.respace_false_true]
      · refine Lexeme.forall_closed_congr hclosed ?_
        rw [Lexeme.map_chunk_respace, Lexeme.map_chunk_map_plain]

end Page

/-! ### Layouts -/

namespace Page

/-- The tokens of marks are put on a page as the marks with new gaps, behind free lexemes that are
not yet in a token. -/
theorem flows_addAll (i : Indent) {p : Page} (hp : p.line.Closed) {M : List Mark} {s : Scan}
    (hM : s.Valid M) {run : List Lexeme} (h : Lexeme.Clean (run ++ M.flatMap Mark.source)) :
    p.Flows ((Mark.reflow p.context 0 true (run.map Mark.free ++ M)).flatMap Mark.source)
      (p.addAll i (Mark.tokensAfter run M)) := by
  induction M generalizing s p run with
  | nil =>
    rw [List.flatMap_nil, List.append_nil] at h
    rw [List.append_nil, Mark.reflow_map_free, Mark.flatMap_source_map_free]
    exact flows_addAll_free i hp h.tight h.finished
  | cons m M ih =>
    cases m with
    | free x =>
      rw [Mark.append_flatMap_source_free] at h
      rw [Mark.map_free_append_free]
      exact ih hp hM.2 h
    | keyword src token =>
      have hhit := (Scan.hit?_eq_some hM.1).2
      have hne : src ++ M.flatMap Mark.source ≠ [] :=
        List.append_ne_nil_of_left_ne_nil hM.source_ne_nil _
      have hsrc : Lexeme.Clean (src ++ M.flatMap Mark.source) := h.right
      have hclosed := hsrc.tight.left.closed_of_hit? hhit
      have hrun := h.tight.left
      have hrunClosed : ∀ x ∈ run, x.chunk.Closed := h.tight.closed_left hne
      -- the free lexemes, the keyword token, and what follows it
      have hfree := flows_addAll_free i hp hrun (hrun.finished hrunClosed)
      have hline := hfree.closed_line
        (Lexeme.forall_closed_congr hrunClosed (Lexeme.map_chunk_respace _ _ _ run).symm)
      obtain ⟨hflow, htokenClosed⟩ := hsrc.tight.left.flow_of_hit? hhit
      rw [List.map_congr_left fun x hx => hsrc.folded x (List.mem_append_left _ hx),
        List.map_id'] at hflow
      have hadd := flows_add_keyword i hline (Lexeme.kind_ne_str_of_hit? hhit) hflow
        htokenClosed
      have hline' := hadd.closed_line
        (Lexeme.forall_closed_congr hclosed (Lexeme.map_chunk_setOff src).symm)
      have hbehind : Lexeme.Clean ([] ++ M.flatMap Mark.source) := hsrc.right
      have hrest := ih hline' hM.2 hbehind
      rw [context_add, context_addAll_freeTokens] at hrest
      rw [Mark.reflow_append_keyword, List.flatMap_append, Mark.flatMap_source_map_free,
        Mark.tokensAfter, addAll_append]
      exact hfree.append (hadd.append hrest)

/-- The lines of a page flow as what has been put on it. -/
theorem Flows.flow_lines {L : List Lexeme} {r : List Text × Page} (h : blank.Flows L r) :
    Text.flow (['\n'].intercalate (r.1 ++ r.2.close)) = L := by
  rw [Text.flow_intercalate (by decide), List.flatMap_append, flatMap_flow_close, h.flow]
  · rfl
  · intro l hl
    refine h.closed l ?_
    unfold close at hl
    split at hl
    · rw [List.append_nil] at hl
      exact List.dropLast_subset _ hl
    · rwa [List.dropLast_concat] at hl

/-- The lines of clean lexemes flow as their marks with new gaps. -/
theorem flow_lines (i : Indent) {L : List Lexeme} (h : Lexeme.Clean L) :
    Text.flow (['\n'].intercalate (lines i (Text.ofLexemes L []).tokens)) =
      (Mark.reflow none 0 true (Scan.start.marks L)).flatMap Mark.source := by
  have hclosed : blank.line.Closed := rfl
  have hclean : Lexeme.Clean ([] ++ (Scan.start.marks L).flatMap Mark.source) := by
    rwa [List.nil_append, Scan.flatMap_source_marks]
  have hflows := flows_addAll i hclosed (Scan.valid_marks .start L) hclean
  rw [Text.tokens_eq_tokensAfter_marks, Text.toLexemes_ofLexemes h.tight]
  exact hflows.flow_lines

/-- The lines of a clean statement have its lexemes. -/
theorem lexemes_lines (i : Indent) (raw : Text) :
    Text.lexemes (['\n'].intercalate (lines i (Statement.ofText raw).sql.tokens)) =
      (Statement.ofText raw).sql.lexemes := by
  obtain ⟨L, hL, hsql⟩ := Statement.exists_clean raw
  rw [hsql, ← Text.map_chunk_flow, flow_lines i hL, Mark.map_chunk_reflow,
    Scan.flatMap_source_marks, Text.lexemes_ofLexemes hL.tight]

end Page

/-- A layout has the lexemes of the clean statement, and behind them a terminator if the statement
is terminated. -/
theorem reformat_lexemes (i : Indent) (raw : Text) :
    ∃ X : Text, reformat i raw = X ++ Statement.ending (Statement.ofText raw).terminated ∧
      X.lexemes = (Statement.ofText raw).sql.lexemes := by
  obtain ⟨L, hL, hsql⟩ := Statement.exists_clean raw
  refine ⟨['\n'].intercalate (Page.lines i (Statement.ofText raw).sql.tokens), rfl, ?_⟩
  rw [hsql, ← Text.map_chunk_flow, Page.flow_lines i hL, Mark.map_chunk_reflow,
    Scan.flatMap_source_marks, Text.lexemes_ofLexemes hL.tight]

end SqlLayout
