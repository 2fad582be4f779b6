import Mathlib.Data.List.Chain
import SqlLayout.Proofs.Scan.Caseless
import SqlLayout.Proofs.Scan.Completeness
import SqlLayout.Proofs.Scan.TopLevel
import SqlLayout.Proofs.Text.Raising

/-!
# Token streams

Who reads tokens may rely on more than that they are copied from the text.  Texts of tokens are
trimmed and not empty.  A keyword token has one of a few texts, and free text is never cut in two.
Outside of quotes free text holds blank characters only as single spaces, and nothing but the last
token leaves a quoted region or a group open.

## Main definitions

* `Kind.spellings` : the texts of the keyword tokens of a kind.
* `Text.IsSqueezed` : blank characters outside of quotes are single spaces inside the text.
* `Token.IsStream` : what holds of the tokens of a text.

## Main results

* `Lexeme.Tight.isSqueezed_body` : lexemes with single spaces between them are squeezed.
* `Mark.isChain_tokensAfter` : between two tokens of free text stands a keyword token.
* `Text.isSolid_of_mem_tokens` : texts of tokens are trimmed and not empty.
* `Text.isStream_tokens` : the tokens of every text are a stream.
-/

namespace SqlLayout

/-! ### Spellings of keyword tokens -/

/-- The texts of the keyword tokens of a kind.  Free text has no spelling of its own. -/
def Kind.spellings : Kind → List String
  | select =>
    ["SELECT", "SELECT DISTINCT", "SELECT DISTINCTROW", "SELECT ALL", "SELECT SQL_CACHE",
      "SELECT SQL_NO_CACHE", "SELECT SQL_CALC_FOUND_ROWS", "SELECT HIGH_PRIORITY"]
  | .from => ["FROM"]
  | join =>
    ["JOIN", "INNER JOIN", "LEFT JOIN", "RIGHT JOIN", "LEFT OUTER JOIN", "RIGHT OUTER JOIN",
      "FULL OUTER JOIN"]
  | on => ["ON"]
  | .where => ["WHERE"]
  | group => ["GROUP BY"]
  | having => ["HAVING"]
  | order => ["ORDER BY"]
  | limit => ["LIMIT"]
  | offset => ["OFFSET"]
  | compare =>
    ["=", "<", ">", "<=", ">=", "<>", "!=", "<=>", "LIKE", "LIKE BINARY", "NOT LIKE",
      "NOT LIKE BINARY"]
  | and => ["AND"]
  | or => ["OR"]
  | .in => ["IN"]
  | str => []

/-- Every spelling is a keyword token of its kind when it stands alone. -/
example : ∀ k ∈ Kind.table, ∀ s ∈ k.spellings, Text.tokens s.toList = [⟨k, s.toList⟩] := by
  decide +kernel

theorem Family.text_mem_spellings {f : Family} {p : Phrase} (hp : p ∈ f.phrases) :
    p.text ∈ p.kind.spellings.map String.toList := by
  have key : ∀ f : Family, ∀ p ∈ f.phrases, p.text ∈ p.kind.spellings.map String.toList := by
    intro f
    cases f <;> decide
  exact key f p hp

theorem Family.symbol_mem_spellings {s : Text} (hs : s ∈ comparison.symbols) :
    s ∈ Kind.compare.spellings.map String.toList := by
  have key : ∀ s ∈ comparison.symbols, s ∈ Kind.compare.spellings.map String.toList := by decide
  exact key s hs

/-- The token of a hit has one of the texts of its kind. -/
theorem Lexeme.text_mem_spellings_of_hit? {L : List Lexeme} {n : Nat} {token : Token}
    (h : hit? L = some (n, token)) : token.text ∈ token.kind.spellings.map String.toList := by
  rcases exists_of_hit? h with ⟨s, hs, -, -, rfl⟩ | ⟨f, p, hp, -, -, rfl⟩
  · exact Family.symbol_mem_spellings hs
  · exact Family.text_mem_spellings hp

/-! ### Squeezed texts -/

/-- Each blank character outside of quotes is a space between two characters that are not blank. -/
def Text.IsSqueezed (t : Text) : Prop :=
  ∀ (before after : Text) (c : Char), t = before ++ c :: after → isBlank c = true →
    Quoting.outside.after before = .outside →
      c = ' ' ∧ (∃ a, before.getLast? = some a ∧ isBlank a = false) ∧
        ∃ b, after.head? = some b ∧ isBlank b = false

/-- A blank character in a chunk stands behind a quote that is open. -/
theorem Chunk.Sound.isOpen_of_isBlank {chunk : Chunk} (h : chunk.Sound) {p v : Text} {c : Char}
    (htext : chunk.text = p ++ c :: v) (hc : SqlLayout.isBlank c = true) :
    (Quoting.outside.after p).isOpen = true := by
  cases chunk with
  | quoted region =>
    obtain ⟨q, body, rfl, hbody⟩ := h
    cases p with
    | nil =>
      obtain ⟨rfl, -⟩ := List.cons.inj htext
      rw [isBlank_quote] at hc
      cases hc
    | cons b p =>
      rw [List.cons_append] at htext
      obtain ⟨rfl, rfl⟩ := List.cons.inj htext
      rw [Quoting.after_cons, Quoting.next_outside_quote]
      exact hbody.right.1
  | word letters =>
    have hletters : letters = p ++ c :: v := htext
    have hword : isWordChar c = true := h.2 c (hletters ▸ by simp)
    rw [isBlank_of_isWordChar hword] at hc
    cases hc
  | blank run => exact h.elim
  | other b =>
    have hb : c ∈ (Chunk.other b).text := htext ▸ by simp
    rw [List.mem_singleton.1 hb, h.2.1] at hc
    cases hc

namespace Lexeme

theorem gap_of_mem_bare_map_plain {L : List Lexeme} :
    ∀ z ∈ bare (L.map plain), z.gap = [] ∨ z.gap = [' '] := by
  have hplain (x : Lexeme) : x.plain.gap = [] ∨ x.plain.gap = [' '] := by
    rw [plain]
    split
    · exact Or.inl rfl
    · exact Or.inr rfl
  cases L with
  | nil => exact List.forall_mem_nil _
  | cons x L =>
    refine List.forall_mem_cons.2 ⟨Or.inl rfl, fun z hz => ?_⟩
    obtain ⟨y, -, rfl⟩ := List.mem_map.1 hz
    exact hplain y

/-- Lexemes with single spaces between them make a squeezed text. -/
theorem Tight.isSqueezed_body {L : List Lexeme} (h : Tight [] L) :
    (body (L.map plain)).IsSqueezed := by
  intro before after c hsplit hc hout
  rw [body_eq_ofLexemes] at hsplit
  obtain ⟨A, z, B, u, v, hAB, hz, rfl, rfl⟩ := Text.exists_of_ofLexemes_eq hsplit
  have htight : Tight [] (A ++ z :: B) := hAB ▸ h.map_plain.bare
  have hsound : z.chunk.Sound := htight.sound z (by simp)
  -- inside the chunk the character would be quoted
  have hinside (p : Text) (hu : u = z.gap ++ p) : z.chunk.text ≠ p ++ c :: v := by
    intro htext
    have hfront := congrArg Nesting.quoting htight.nesting_in_front
    rw [Nesting.quoting_after] at hfront
    have hopen := hsound.isOpen_of_isBlank htext hc
    rw [hu, ← List.append_assoc, Quoting.after_append] at hout
    rw [show Quoting.outside.after (Text.ofLexemes A [] ++ z.gap) = .outside from hfront] at hout
    rw [hout] at hopen
    cases hopen
  rcases gap_of_mem_bare_map_plain z (by rw [hAB]; simp) with hgap | hgap
  · rw [text, hgap] at hz
    exact absurd hz (hinside u (by rw [hgap, List.nil_append]))
  · rw [text, hgap] at hz
    cases u with
    | cons b u =>
      obtain ⟨rfl, htext⟩ := List.cons.inj hz
      exact absurd htext (hinside u (by rw [hgap]; rfl))
    | nil =>
      obtain ⟨rfl, rfl⟩ := List.cons.inj hz
      obtain ⟨b, t, hb, hblank, -⟩ := hsound.exists_cons
      refine ⟨rfl, ?_, b, congrArg (fun s : Text => (s ++ Text.ofLexemes B []).head?) hb, hblank⟩
      -- the first lexeme has no gap, so there is another one in front of this one
      cases A using List.reverseRecOn with
      | nil =>
        cases L with
        | nil => cases hAB
        | cons x L =>
          obtain ⟨rfl, -⟩ := List.cons.inj hAB
          cases hgap
      | append_singleton A w =>
        have hclosed : w.chunk.Closed := htight.closed_left (List.cons_ne_nil z B) w (by simp)
        obtain ⟨s, a, hlast, ha, -⟩ := (htight.sound w (by simp)).exists_concat hclosed
        have hfront :
            Text.ofLexemes (A ++ [w]) [] ++ [] = (Text.ofLexemes A [] ++ w.gap ++ s) ++ [a] := by
          simp [Text.ofLexemes, text, hlast]
        exact ⟨a, by rw [hfront, List.getLast?_concat], ha⟩

end Lexeme

/-! ### Streams -/

/-- What holds of the tokens of every text. -/
structure Token.IsStream (ts : List Token) : Prop where
  /-- Texts begin and end with a character that is not blank. -/
  solid : ∀ t ∈ ts, t.text.IsSolid
  /-- A keyword token has one of the texts of its kind. -/
  spelled : ∀ t ∈ ts, t.kind ≠ .str → t.text ∈ t.kind.spellings.map String.toList
  /-- Blank characters outside of quotes are single spaces. -/
  squeezed : ∀ t ∈ ts, t.kind = .str → t.text.IsSqueezed
  /-- No two tokens of free text stand next to each other. -/
  apart : ts.IsChain fun t u => ¬ (t.kind = .str ∧ u.kind = .str)
  /-- No token but the last leaves a quoted region or a parenthesis open. -/
  complete : ∀ t ∈ ts.dropLast, Nesting.start.after t.text = .start

namespace Text

theorem isChain_freeTokens (R : Token → Token → Prop) (free : Text) :
    free.freeTokens.IsChain R := by
  rw [freeTokens]
  split
  · exact List.isChain_nil
  · exact List.isChain_singleton _

/-- A token is made of lexemes of the text: it has been found in front of them, or they are free and
stand in it with single spaces between them. -/
theorem exists_of_mem_tokens {t : Text} {u : Token} (h : u ∈ t.tokens) :
    ∃ L rest, L ≠ [] ∧ Lexeme.Tight [] L ∧
      (u = .str (Lexeme.body (L.map Lexeme.plain)).trimEnd ∨
        Lexeme.hit? (L ++ rest) = some (L.length, u)) := by
  rw [← map_token_spans] at h
  obtain ⟨sp, hsp, rfl⟩ := List.mem_map.1 h
  obtain ⟨L₁, L, L₂, hL, hne, -, -, hread⟩ := exists_of_mem_spans hsp
  have htight : Lexeme.Tight t.lastGap (L₁ ++ L ++ L₂) := hL ▸ t.tight_toLexemes
  exact ⟨L, L₂, hne, htight.left.right, hread⟩

end Text

/-- Between two tokens of free text stands a keyword token. -/
theorem Mark.isChain_tokensAfter {s : Scan} {M : List Mark} (hM : s.Valid M) (run : List Lexeme) :
    (tokensAfter run M).IsChain fun t u => ¬ (t.kind = .str ∧ u.kind = .str) := by
  induction M generalizing s run with
  | nil => exact Text.isChain_freeTokens _ _
  | cons m M ih =>
    cases m with
    | free x => exact ih hM.2 (run ++ [x])
    | keyword source token =>
      have hkind := Lexeme.kind_ne_str_of_hit? (Scan.hit?_eq_some hM.1).2
      rw [tokensAfter, List.isChain_append, List.isChain_cons]
      refine ⟨Text.isChain_freeTokens _ _, ⟨fun u _ hu => hkind hu.1, ih hM.2 []⟩, ?_⟩
      intro t _ u hu htu
      obtain rfl : token = u := Option.some.inj hu
      exact hkind htu.2

namespace Lexeme

/-- Lexemes that a keyword token has been read from begin and end with characters that are not
blank, and so does the token. -/
theorem Tight.isSolid_of_hit? {L rest : List Lexeme} {token : Token} (h : Tight [] L) (hne : L ≠ [])
    (hhit : hit? (L ++ rest) = some (L.length, token)) : token.text.IsSolid := by
  obtain ⟨x, L, rfl⟩ := List.exists_cons_of_ne_nil hne
  have hfinished : Finished ((x :: L).map plain) :=
    (h.finished (h.closed_of_hit? hhit)).congr (map_chunk_map_plain (x :: L)).symm
  obtain ⟨-, -, hsolid, -⟩ := h.map_plain.exists_isSolid_body
  rw [← List.map_cons, h.map_plain.trimEnd_body hfinished] at hsolid
  have hupper := h.upper_body_of_hit? hhit
  exact hsolid.congr_upper (by rw [← hupper, Text.upper_upper])

/-- Free lexemes begin and end with characters that are not blank once they are trimmed. -/
theorem Tight.isSolid_trimEnd_body {L : List Lexeme} (h : Tight [] L) (hne : L ≠ []) :
    (body (L.map plain)).trimEnd.IsSolid := by
  obtain ⟨x, L, rfl⟩ := List.exists_cons_of_ne_nil hne
  obtain ⟨-, -, hsolid, -⟩ := h.map_plain.exists_isSolid_body
  exact hsolid

theorem Tight.isSqueezed_trimEnd_body {L : List Lexeme} (h : Tight [] L) :
    (body (L.map plain)).trimEnd.IsSqueezed := by
  rw [← body_trimLast h.map_plain.sound, ← map_plain_trimLast]
  exact h.trimLast.isSqueezed_body

end Lexeme

/-- Texts of tokens begin and end with characters that are not blank. -/
theorem Text.isSolid_of_mem_tokens {t : Text} {u : Token} (hu : u ∈ t.tokens) : u.text.IsSolid := by
  obtain ⟨L, rest, hne, htight, rfl | hhit⟩ := exists_of_mem_tokens hu
  · exact htight.isSolid_trimEnd_body hne
  · exact htight.isSolid_of_hit? hne hhit

/-- The tokens of every text are a stream. -/
theorem Text.isStream_tokens (t : Text) : Token.IsStream t.tokens where
  solid _ := isSolid_of_mem_tokens
  spelled u hu hkind := by
    obtain ⟨L, rest, -, -, rfl | hhit⟩ := exists_of_mem_tokens hu
    · exact absurd rfl hkind
    · exact Lexeme.text_mem_spellings_of_hit? hhit
  squeezed u hu hkind := by
    obtain ⟨L, rest, -, htight, rfl | hhit⟩ := exists_of_mem_tokens hu
    · exact htight.isSqueezed_trimEnd_body
    · exact absurd hkind (Lexeme.kind_ne_str_of_hit? hhit)
  apart := by
    rw [tokens_eq_tokensAfter_marks]
    exact Mark.isChain_tokensAfter (Scan.valid_marks .start _) []
  complete := t.openOnlyLast_tokens.complete_of_mem_dropLast

end SqlLayout
