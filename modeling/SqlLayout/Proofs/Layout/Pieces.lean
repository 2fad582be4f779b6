import SqlLayout.Layout.Items
import SqlLayout.Proofs.Scan.Sources
import SqlLayout.Proofs.Text.Flow

/-!
# The items of a list, lexeme by lexeme

The body of a list is cut at the commas at its top level.  Among lexemes such a comma is a lexeme of
its own, and the blank characters around it belong to no item.  When items are laid out, each of
them begins behind a gap, and a comma has one only if its item is empty.

## Main definitions

* `Lexeme.separates` : whether a lexeme is a comma at the top level.
* `Lexeme.pieces` : the lexemes between such commas.
* `Lexeme.respace` : lexemes with the gaps that they get when they are laid out.
* `Lexeme.flowOfPieces` : the flow of items with commas behind all of them but the last.

## Main results

* `Lexeme.Tight.items_body` : the items of a text are the pieces of its lexemes.
* `Lexeme.respace_eq_flowOfPieces` : items laid out are their lexemes with new gaps.
* `Lexeme.pieces_respace` : new gaps leave the pieces as they are.
-/

namespace SqlLayout

namespace Lexeme

/-- Whether a lexeme is a comma at the top level. -/
def separates (d : Nat) (x : Lexeme) : Bool := d == 0 && x.chunk == .other ','

/-- The pieces of lexemes between the commas at the top level: the first one, and those behind a
comma. -/
def pieces : Nat → List Lexeme → List Lexeme × List (List Lexeme)
  | _, [] => ([], [])
  | d, x :: L =>
    let behind := pieces (x.chunk.depthAfter d) L
    if x.separates d then ([], behind.1 :: behind.2) else (x :: behind.1, behind.2)

/-- A lexeme with the gap that it gets when it is laid out.  At the beginning of an item it has one,
and a comma between items has none. -/
def respaced (lists : Bool) (d : Nat) (fresh : Bool) (x : Lexeme) : Lexeme where
  gap := if fresh then [' '] else if lists && x.separates d then [] else x.plain.gap
  chunk := x.chunk

/-- Lexemes with the gaps that they get when they are laid out, `lists` if they are the body of a
list. -/
def respace (lists : Bool) : Nat → Bool → List Lexeme → List Lexeme
  | _, _, [] => []
  | d, fresh, x :: L =>
    x.respaced lists d fresh ::
      respace lists (x.chunk.depthAfter d) (lists && x.separates d) L

/-- The flow of pieces with commas between them.  There is no gap in front of a comma, unless the
piece is empty. -/
def flowOfPieces (P : List Lexeme) : List (List Lexeme) → List Lexeme
  | [] => setOff P
  | Q :: Qs => setOff P ++ ⟨if P.isEmpty then [' '] else [], .other ','⟩ :: flowOfPieces Q Qs

@[simp] theorem respaced_chunk (lists : Bool) (d : Nat) (fresh : Bool) (x : Lexeme) :
    (x.respaced lists d fresh).chunk = x.chunk := rfl

theorem map_chunk_respace (lists : Bool) (d : Nat) (fresh : Bool) (L : List Lexeme) :
    (respace lists d fresh L).map chunk = L.map chunk := by
  induction L generalizing d fresh with
  | nil => rfl
  | cons x L ih => simp [respace, ih]

theorem respace_map_plain (lists : Bool) (d : Nat) (fresh : Bool) (L : List Lexeme) :
    respace lists d fresh (L.map plain) = respace lists d fresh L := by
  induction L generalizing d fresh with
  | nil => rfl
  | cons x L ih => simp [respace, respaced, separates, ih]

theorem respace_false (d : Nat) (L : List Lexeme) : respace false d false L = L.map plain := by
  induction L generalizing d with
  | nil => rfl
  | cons x L ih => simp [respace, respaced, ih, plain]

/-- Where no list is laid out only the first gap is new. -/
theorem respace_false_true (d : Nat) (L : List Lexeme) : respace false d true L = setOff L := by
  cases L with
  | nil => rfl
  | cons x L =>
    rw [respace, Bool.false_and, respace_false]
    rfl

theorem chunk_of_separates {d : Nat} {x : Lexeme} (h : x.separates d = true) :
    d = 0 ∧ x.chunk = .other ',' := by
  simpa [separates] using h

/-- Items laid out are their lexemes with new gaps, where `P` is the part of the first item in front
of the lexemes. -/
theorem setOff_append_respace (P : List Lexeme) (d : Nat) (L : List Lexeme) :
    setOff P ++ respace true d P.isEmpty L =
      flowOfPieces (P ++ (pieces d L).1) (pieces d L).2 := by
  induction L generalizing P d with
  | nil => simp [respace, pieces, flowOfPieces]
  | cons x L ih =>
    rw [respace, pieces]
    cases hx : x.separates d with
    | true =>
      have hcomma :
          x.respaced true d P.isEmpty = ⟨if P.isEmpty then [' '] else [], .other ','⟩ := by
        simp [respaced, hx, (chunk_of_separates hx).2]
      have ih := ih [] (x.chunk.depthAfter d)
      rw [hcomma, if_pos rfl, Bool.true_and, List.append_nil, flowOfPieces]
      exact congrArg _ (congrArg _ ih)
    | false =>
      have hsetOff : setOff P ++ [x.respaced true d P.isEmpty] = setOff (P ++ [x]) := by
        cases P with
        | nil => rfl
        | cons y P =>
          rw [setOff_append (List.cons_ne_nil y P)]
          simp [respaced, hx, plain]
      have ih := ih (P ++ [x]) (x.chunk.depthAfter d)
      have hempty : (P ++ [x]).isEmpty = false := by simp
      rw [hempty, ← hsetOff, List.append_assoc, List.append_assoc] at ih
      rw [if_neg (by simp), Bool.true_and]
      exact ih

theorem respace_eq_flowOfPieces (d : Nat) (L : List Lexeme) :
    respace true d true L = flowOfPieces (pieces d L).1 (pieces d L).2 :=
  setOff_append_respace [] d L

theorem separates_congr {x y : Lexeme} (h : x.chunk = y.chunk) (d : Nat) :
    x.separates d = y.separates d := by
  rw [separates, separates, h]

/-- New gaps leave the pieces as they are. -/
theorem pieces_respace (d : Nat) (fresh : Bool) (L : List Lexeme) :
    pieces d (respace true d fresh L) =
      (if fresh then setOff (pieces d L).1 else (pieces d L).1.map plain,
        (pieces d L).2.map setOff) := by
  induction L generalizing d fresh with
  | nil => cases fresh <;> rfl
  | cons x L ih =>
    have hsep := separates_congr (respaced_chunk true d fresh x) d
    rw [respace, pieces, hsep, respaced_chunk, ih, pieces]
    cases hx : x.separates d with
    | true => cases fresh <;> simp [setOff]
    | false => cases fresh <;> simp [setOff, respaced, hx, plain]

theorem pieces_map_plain (d : Nat) (L : List Lexeme) :
    pieces d (L.map plain) = ((pieces d L).1.map plain, (pieces d L).2.map (List.map plain)) := by
  induction L generalizing d with
  | nil => rfl
  | cons x L ih =>
    have hsep := separates_congr (plain_chunk x) d
    rw [List.map_cons, pieces, hsep, plain_chunk, ih, pieces]
    cases hx : x.separates d <;> simp

/-- Behind the first piece stands a comma, unless it is the only one. -/
theorem exists_of_pieces_eq {d : Nat} {L P : List Lexeme} {Ps : List (List Lexeme)}
    (h : pieces d L = (P, Ps)) :
    (Ps = [] ∧ L = P) ∨ ∃ Q Qs x M, Ps = Q :: Qs ∧ L = P ++ x :: M ∧ x.chunk = .other ',' ∧
      pieces 0 M = (Q, Qs) := by
  induction L generalizing d P with
  | nil =>
    obtain ⟨rfl, rfl⟩ := Prod.mk.inj h
    exact Or.inl ⟨rfl, rfl⟩
  | cons x L ih =>
    rw [pieces] at h
    cases hx : x.separates d with
    | true =>
      obtain ⟨rfl, hcomma⟩ := chunk_of_separates hx
      rw [hx, if_pos rfl, hcomma] at h
      obtain ⟨rfl, rfl⟩ := Prod.mk.inj h
      exact Or.inr ⟨_, _, x, L, rfl, rfl, hcomma, rfl⟩
    | false =>
      rw [hx, if_neg (by simp)] at h
      obtain ⟨rfl, rfl⟩ := Prod.mk.inj h
      rcases ih rfl with ⟨hnil, hL⟩ | ⟨Q, Qs, y, M, hPs, hL, hcomma, hM⟩
      · exact Or.inl ⟨hnil, congrArg _ hL⟩
      · exact Or.inr ⟨Q, Qs, y, M, hPs, congrArg _ hL, hcomma, hM⟩

end Lexeme

/-! ### Cutting texts at commas -/

namespace Text

/-- No comma at the top level occurs in a text. -/
def NoCut : Nesting → Text → Prop
  | _, [] => True
  | n, c :: t => (n.isTop && c == ',') = false ∧ NoCut (n.next c) t

theorem NoCut.append {n : Nesting} {t u : Text} (ht : NoCut n t) (hu : NoCut (n.after t) u) :
    NoCut n (t ++ u) := by
  induction t generalizing n with
  | nil => exact hu
  | cons c t ih => exact ⟨ht.1, ih ht.2 hu⟩

theorem noCut_of_forall_ne {t : Text} (h : ∀ c ∈ t, c ≠ ',') (n : Nesting) : NoCut n t := by
  induction t generalizing n with
  | nil => trivial
  | cons c t ih =>
    refine ⟨?_, ih (fun b hb => h b (List.mem_cons_of_mem c hb)) _⟩
    simp [h c List.mem_cons_self]

theorem noCut_of_staysOpen {n : Nesting} {t : Text} (h : n.quoting.StaysOpen t) : NoCut n t := by
  induction t generalizing n with
  | nil => trivial
  | cons c t ih =>
    refine ⟨?_, ih h.2⟩
    simp [Nesting.isTop, h.1]

/-- The first piece begins with all that is not cut. -/
theorem cutAtCommas_append {n : Nesting} {t : Text} (h : NoCut n t) (u : Text) :
    cutAtCommas n (t ++ u) =
      (t ++ (cutAtCommas (n.after t) u).1, (cutAtCommas (n.after t) u).2) := by
  induction t generalizing n with
  | nil => rfl
  | cons c t ih =>
    rw [List.cons_append, cutAtCommas, h.1, ih h.2]
    rfl

theorem cutAtCommas_comma (u : Text) :
    cutAtCommas .start (',' :: u) = ([], (cutAtCommas .start u).1 :: (cutAtCommas .start u).2) :=
  rfl

theorem noCut_of_isBlank {gap : Text} (h : gap.IsBlank) (n : Nesting) : NoCut n gap := by
  refine noCut_of_forall_ne (fun c hc => ?_) n
  rintro rfl
  exact absurd (h _ hc) (by decide)

theorem noCut_chunk {x : Lexeme} (h : x.chunk.Sound) {d : Nat} (hx : x.separates d = false) :
    NoCut ⟨.outside, d⟩ x.chunk.text := by
  obtain ⟨gap, chunk⟩ := x
  cases chunk with
  | quoted region =>
    obtain ⟨q, body, rfl, hbody⟩ := h
    refine ⟨?_, noCut_of_staysOpen ?_⟩
    · have hne : q.char ≠ ',' := by cases q <;> decide
      simp [hne]
    · rw [Nesting.next_quote]
      exact hbody
  | word letters =>
    refine noCut_of_forall_ne (fun c hc => ?_) _
    rintro rfl
    exact absurd (h.2 _ hc) (by decide)
  | blank run => exact h.elim
  | other c =>
    refine ⟨?_, trivial⟩
    rw [Nesting.isTop_outside]
    simpa [Lexeme.separates] using hx

end Text

namespace Lexeme

theorem Tight.trim_ofLexemes {L : List Lexeme} (h : Tight [] L) (hL : Finished L) {gap : Text}
    (hgap : gap.IsBlank) : (Text.ofLexemes L [] ++ gap).trim = body L := by
  cases L with
  | nil =>
    rw [Text.ofLexemes_nil, List.nil_append, Text.trim, trimStart_eq_nil hgap]
    rfl
  | cons x L =>
    have hstart : Text.startsBlank (body (x :: L) ++ gap) = false := by
      rw [body, List.append_assoc]
      exact h.2.1.startsBlank_append _
    rw [ofLexemes_eq_gap_append_body, List.append_nil, List.append_assoc, Text.trim,
      (takeWhile_gap_append h.1 hstart).2, Text.trimEnd_append_of_isBlank _ hgap, h.trimEnd_body hL]

/-- The items of lexemes are their pieces, where `P` is the part of the first item in front of the
lexemes. -/
theorem Tight.map_trim_cutAtCommas {P L : List Lexeme} (h : Tight [] (P ++ L))
    (hL : Finished (P ++ L)) (d : Nat) :
    (Text.ofLexemes P [] ++ (Text.cutAtCommas ⟨.outside, d⟩ (Text.ofLexemes L [])).1).trim ::
        (Text.cutAtCommas ⟨.outside, d⟩ (Text.ofLexemes L [])).2.map Text.trim =
      ((P ++ (pieces d L).1) :: (pieces d L).2).map body := by
  induction L generalizing P d with
  | nil =>
    rw [List.append_nil] at h hL
    have htrim := h.trim_ofLexemes hL Text.isBlank_nil
    simp only [Text.ofLexemes_nil, Text.cutAtCommas, pieces, List.append_nil, List.map_nil,
      List.map_cons] at htrim ⊢
    rw [htrim]
  | cons x L ih =>
    have hx := h.right
    have hP := h.closed_left (List.cons_ne_nil x L)
    rw [Text.ofLexemes_cons, pieces]
    cases hsep : x.separates d with
    | true =>
      -- the gap in front of the comma belongs to no item
      obtain ⟨rfl, hcomma⟩ := chunk_of_separates hsep
      have hgap := Text.noCut_of_isBlank hx.1 .start
      have hafter := Nesting.after_of_isBlank hx.1 0
      have ih := ih (P := []) hx.2.2.2.2 (Finished.right (L := [x]) hL.right) 0
      rw [hcomma]
      change (_ ++ (Text.cutAtCommas .start (x.gap ++ ',' :: _)).1).trim ::
        (Text.cutAtCommas .start (x.gap ++ ',' :: _)).2.map Text.trim = _
      rw [Text.cutAtCommas_append hgap, show Nesting.start.after x.gap = .start from hafter,
        Text.cutAtCommas_comma, List.append_nil, h.left.trim_ofLexemes (h.left.finished hP) hx.1]
      simp only [if_true, List.append_nil, List.map_cons]
      exact congrArg _ ih
    | false =>
      have happend : P ++ x :: L = P ++ [x] ++ L := by simp
      rw [happend] at h hL
      have ih := ih h hL (x.chunk.depthAfter d)
      have hnoCut : Text.NoCut ⟨.outside, d⟩ (x.gap ++ x.chunk.text) := by
        refine (Text.noCut_of_isBlank hx.1 _).append ?_
        rw [Nesting.after_of_isBlank hx.1]
        exact Text.noCut_chunk hx.2.1 hsep
      have hbehind : Text.cutAtCommas ((⟨.outside, d⟩ : Nesting).after (x.gap ++ x.chunk.text))
          (Text.ofLexemes L []) =
            Text.cutAtCommas ⟨.outside, x.chunk.depthAfter d⟩ (Text.ofLexemes L []) := by
        rcases hx.2.2.1 with hclosed | ⟨rfl, -⟩
        · have hclosed : Quoting.outside.after x.chunk.text = .outside := hclosed
          rw [Nesting.after_append, Nesting.after_of_isBlank hx.1, hx.2.1.nesting_after, hclosed]
        · rfl
      rw [← List.append_assoc, Text.cutAtCommas_append hnoCut, hbehind]
      simpa [Text.ofLexemes, Lexeme.text] using ih

/-- The items of a text are the pieces of its lexemes. -/
theorem Tight.items_body {L : List Lexeme} (h : Tight [] L) (hL : Finished L) :
    (body L).items = ((pieces 0 L).1 :: (pieces 0 L).2).map body := by
  cases L with
  | nil => rfl
  | cons x L =>
    have hitems := Tight.map_trim_cutAtCommas (P := []) (L := Lexeme.bare (x :: L)) h.bare
      (hL.congr rfl) 0
    rw [← body_eq_ofLexemes, List.nil_append, Text.ofLexemes_nil, List.nil_append] at hitems
    have hsep := separates_congr (x := ⟨[], x.chunk⟩) (y := x) rfl 0
    refine hitems.trans ?_
    rw [Lexeme.bare, pieces, hsep, pieces]
    cases x.separates 0 <;> rfl

end Lexeme

end SqlLayout
