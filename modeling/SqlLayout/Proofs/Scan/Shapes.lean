import SqlLayout.Proofs.Scan.Sources
import SqlLayout.Proofs.Text.Flow
import SqlLayout.Proofs.Text.Folding

/-!
# What a scan sees of lexemes

Of a quoted region a scan sees only that it is one, and of a word only the keyword that it spells.
So lexemes of the same shape have the same hits and the same marks, whatever stands in quotes, and
however keywords and names are written.

## Main definitions

* `Chunk.shape`, `Lexeme.shape`, `Mark.shape` : what a scan sees of a chunk, a lexeme and a mark.

## Main results

* `Lexeme.hit?_congr_shape` : lexemes of the same shape have the same hit.
* `Scan.Valid.of_shape` : marks of the same shape as valid marks are valid.
* `Lexeme.Tight.flow_of_hit?` : a keyword token flows as the lexemes that it has been read from, in
  upper case.
-/

namespace SqlLayout

/-! ### Shapes of chunks -/

namespace Chunk

/-- What a scan sees of a chunk: that it is a quoted region, the keyword that it spells, or the
character that it is. -/
def shape : Chunk → Chunk
  | quoted _ => quoted []
  | word letters => word (((Keyword.ofWord? letters).map Keyword.letters).getD [])
  | chunk => chunk

@[simp] theorem depthAfter_shape (chunk : Chunk) (d : Nat) :
    chunk.shape.depthAfter d = chunk.depthAfter d := by
  cases chunk <;> rfl

@[simp] theorem closes_shape (chunk : Chunk) (d : Nat) :
    chunk.shape.closes d = chunk.closes d := by
  cases chunk <;> rfl

@[simp] theorem shape_beq_other (chunk : Chunk) (c : Char) :
    (chunk.shape == other c) = (chunk == other c) := by
  cases chunk <;> rfl

@[simp] theorem shape_folded (chunk : Chunk) : chunk.folded.shape = chunk.shape := by
  cases chunk with
  | word letters =>
    cases h : Keyword.ofWord? letters with
    | none => simp [folded, h]
    | some k => simp [folded, shape, h, Keyword.ofWord?_letters]
  | _ => rfl

@[simp] theorem shape_trimmed (chunk : Chunk) : chunk.trimmed.shape = chunk.shape := by
  cases chunk <;> rfl

end Chunk

/-! ### Shapes of lexemes -/

namespace Lexeme

/-- What a scan sees of a lexeme. -/
def shape (x : Lexeme) : Lexeme := ⟨x.gap, x.chunk.shape⟩

@[simp] theorem shape_fold (x : Lexeme) : x.fold.shape = x.shape := by
  simp [shape, fold]

@[simp] theorem keyword?_shape (x : Lexeme) : x.shape.keyword? = x.keyword? := by
  obtain ⟨gap, chunk⟩ := x
  cases chunk with
  | word letters =>
    have hnil : Keyword.ofWord? [] = none := by decide
    cases h : Keyword.ofWord? letters with
    | none => simp [keyword?, shape, Chunk.shape, h, hnil]
    | some k => simp [keyword?, shape, Chunk.shape, h, Keyword.ofWord?_letters]
  | _ => rfl

theorem spells_map_shape (ks : List Keyword) (L : List Lexeme) :
    spells ks (L.map shape) = spells ks L := by
  have hkeywords : keyword? ∘ shape = keyword? := funext keyword?_shape
  rw [spells, spells, List.map_map, hkeywords]

theorem adjoins_map_shape (s : Text) (L : List Lexeme) :
    adjoins s (L.map shape) = adjoins s L := by
  induction s generalizing L with
  | nil => rfl
  | cons c s ih =>
    cases L with
    | nil => rfl
    | cons x L => simp [adjoins, ih, shape]

theorem bare_map_shape (L : List Lexeme) : bare (L.map shape) = (bare L).map shape := by
  cases L <;> rfl

theorem hit?_map_shape (L : List Lexeme) : hit? (L.map shape) = hit? L := by
  simp only [hit?, Family.read?, Family.symbolRead?, Family.phraseRead?, bare_map_shape,
    adjoins_map_shape, spells_map_shape]

/-- Lexemes of the same shape have the same hit. -/
theorem hit?_congr_shape {L M : List Lexeme} (h : L.map shape = M.map shape) : hit? L = hit? M := by
  rw [← hit?_map_shape, h, hit?_map_shape]

theorem startsSymbol_map_shape (L : List Lexeme) : startsSymbol (L.map shape) = startsSymbol L := by
  simp only [startsSymbol, bare_map_shape, adjoins_map_shape]

theorem map_shape_map_fold (L : List Lexeme) : (L.map fold).map shape = L.map shape := by
  simp

theorem map_shape_trimLast (L : List Lexeme) : (trimLast L).map shape = L.map shape := by
  induction L with
  | nil => rfl
  | cons x L ih =>
    cases L with
    | nil => simp [trimLast, shape]
    | cons y L => rw [trimLast, List.map_cons, ih]; rfl

end Lexeme

/-! ### Shapes of marks -/

namespace Mark

/-- What a scan sees of a mark. -/
def shape : Mark → Mark
  | free x => free x.shape
  | keyword source token => keyword (source.map Lexeme.shape) token

theorem flatMap_source_map_shape (M : List Mark) :
    (M.map shape).flatMap source = (M.flatMap source).map Lexeme.shape :=
  flatMap_source_map (fun m => by cases m <;> rfl) M

end Mark

namespace Scan

theorem hit?_map_shape (s : Scan) (L : List Lexeme) : s.hit? (L.map Lexeme.shape) = s.hit? L := by
  cases L with
  | nil => rfl
  | cons x L =>
    have hsymbol := Lexeme.startsSymbol_map_shape (x :: L)
    have hhit := Lexeme.hit?_map_shape (x :: L)
    rw [List.map_cons] at hsymbol hhit
    rw [List.map_cons, hit?, hit?, hsymbol, hhit]
    rfl

@[simp] theorem next_shape (s : Scan) (x : Lexeme) : s.next x.shape = s.next x := by
  simp [next, Lexeme.shape]

/-- Shapes are marked as what they are the shapes of. -/
theorem valid_map_shape_iff {s : Scan} {M : List Mark} :
    s.Valid (M.map Mark.shape) ↔ s.Valid M := by
  induction M generalizing s with
  | nil => exact Iff.rfl
  | cons m M ih =>
    cases m with
    | free x =>
      rw [List.map_cons, Mark.shape, Valid, Valid, next_shape, ih, Mark.flatMap_source_map_shape,
        ← List.map_cons, hit?_map_shape]
    | keyword src token =>
      rw [List.map_cons, Mark.shape, Valid, Valid, ih, Mark.flatMap_source_map_shape,
        ← List.map_append, hit?_map_shape, List.length_map]

/-- Marks of the same shape as valid marks are valid. -/
theorem Valid.of_shape {s : Scan} {M N : List Mark} (hM : s.Valid M)
    (h : N.map Mark.shape = M.map Mark.shape) : s.Valid N := by
  rw [← valid_map_shape_iff, h, valid_map_shape_iff]
  exact hM

end Scan

/-! ### The text of a keyword token -/

namespace Lexeme

theorem upper_text_of_inKeyword {x : Lexeme} (h : x.chunk.InKeyword) (hfolded : x.fold = x) :
    x.chunk.text.upper = x.chunk.text := by
  obtain ⟨gap, chunk⟩ := x
  cases chunk with
  | word letters =>
    obtain ⟨k, hk⟩ := Option.isSome_iff_exists.1 h
    have hletters : k.letters = letters := by
      simpa [fold, Chunk.folded, hk] using hfolded
    rw [← hletters]
    exact k.upper_letters
  | other c =>
    have key : ("<>=!".toList.all fun c => Text.upper [c] == [c]) = true := by decide
    exact eq_of_beq (List.all_eq_true.1 key c h)
  | _ => exact h.elim

/-- With one space for each gap, lexemes are in upper case if their chunks are. -/
theorem upper_ofLexemes_map_plain {L : List Lexeme}
    (h : ∀ x ∈ L, x.chunk.text.upper = x.chunk.text) :
    (Text.ofLexemes (L.map plain) []).upper = Text.ofLexemes (L.map plain) [] := by
  induction L with
  | nil => rfl
  | cons x L ih =>
    obtain ⟨hx, hL⟩ := List.forall_mem_cons.1 h
    have hgap : x.plain.gap.upper = x.plain.gap := by
      obtain ⟨gap, chunk⟩ := x
      cases gap <;> rfl
    rw [List.map_cons, Text.ofLexemes_cons, Text.upper_append, Text.upper_append, hgap, plain_chunk,
      hx, ih hL]

/-- Clean lexemes that a hit takes are the text of its token. -/
theorem Tight.body_of_hit? {L rest : List Lexeme} {token : Token} (hL : Tight [] L)
    (hfolded : ∀ x ∈ L, x.fold = x) (h : hit? (L ++ rest) = some (L.length, token)) :
    body (L.map plain) = token.text := by
  have hkeyword := inKeyword_of_hit? h
  have hupper : ∀ x ∈ L, x.chunk.text.upper = x.chunk.text := fun x hx =>
    upper_text_of_inKeyword (hkeyword x hx) (hfolded x hx)
  rw [← hL.upper_body_of_hit? h]
  cases L with
  | nil => rfl
  | cons x L =>
    obtain ⟨hx, hrest⟩ := List.forall_mem_cons.1 hupper
    rw [List.map_cons, body, Text.upper_append, plain_chunk, hx, upper_ofLexemes_map_plain hrest]

/-- What a hit takes is the text of its token, with keywords in upper case and one space for each
gap. -/
theorem Tight.body_map_fold_of_hit? {L rest : List Lexeme} {token : Token} (hL : Tight [] L)
    (h : hit? (L ++ rest) = some (L.length, token)) :
    body ((L.map fold).map plain) = token.text := by
  have hshape : (L.map fold ++ rest).map shape = (L ++ rest).map shape := by
    rw [List.map_append, List.map_append, map_shape_map_fold]
  have hfold : hit? (L.map fold ++ rest) = some ((L.map fold).length, token) := by
    rw [hit?_congr_shape hshape, h, List.length_map]
  refine hL.map_fold.body_of_hit? (fun x hx => ?_) hfold
  obtain ⟨y, -, rfl⟩ := List.mem_map.1 hx
  exact y.fold_fold

/-- A keyword token flows as the lexemes that it has been read from, in upper case. -/
theorem Tight.flow_of_hit? {L rest : List Lexeme} {token : Token} (h : Tight [] L)
    (hhit : hit? (L ++ rest) = some (L.length, token)) :
    token.text.flow = Lexeme.setOff (L.map fold) ∧ token.text.Closed := by
  have hclosed : ∀ x ∈ (L.map fold).map plain, x.chunk.Closed := by
    intro x hx
    obtain ⟨y, hy, rfl⟩ := List.mem_map.1 hx
    obtain ⟨z, hz, rfl⟩ := List.mem_map.1 hy
    exact (h.sound z hz).closed_folded (h.closed_of_hit? hhit z hz)
  rw [← h.body_map_fold_of_hit? hhit]
  exact ⟨by rw [h.map_fold.map_plain.flow_body, setOff_map_plain],
    h.map_fold.map_plain.closed_body hclosed⟩

end Lexeme

end SqlLayout
