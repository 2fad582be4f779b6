import SqlLayout.CommandLine.Run
import SqlLayout.Proofs.Scan.Streams
import SqlLayout.Proofs.Text.Cuts

/-!
# Listings read back

A literal may hold line feeds, and lines that look like records.  Still nothing in a listing is
mistaken for the end of a record.  Line feeds in a token are quoted, since blank characters outside
of quotes have become spaces.  The name of a kind has no quotes, and no token but the last leaves a
region open, so the state of quotes in front of each record is the one in front of the listing.

## Main definitions

* `Text.endsRecord` : the line feeds outside of quotes.
* `Text.Unbroken` : a text without such line feeds.
* `Token.readListing` : the tokens that a listing shows.

## Main results

* `Text.unbroken_of_mem_tokens` : texts of tokens are unbroken.
* `Token.cutWhere_listing` : the line feeds outside of quotes are the ends of the records.
* `Token.readListing_listing` : the tokens of a text are found again in their listing.
* `listings_read_back` : what is shown of a statement tells its tokens.
-/

namespace SqlLayout

/-! ### Reading listings -/

/-- Whether a character is a line feed outside of quotes, where `before` is all that stands in front
of it. -/
def Text.endsRecord (before : Text) (c : Char) : Bool :=
  !(Quoting.outside.after before).isOpen && c == '\n'

/-- The kind whose padded name is a text. -/
def Kind.ofLabel? (label : Text) : Option Kind := ofName? (String.ofList label.trimEnd)

namespace Token

/-- The token that a record shows, if it begins with the padded name of a kind. -/
def ofRecord? (record : Text) : Option Token :=
  (Kind.ofLabel? (record.take labelWidth)).map fun kind => ⟨kind, record.drop labelWidth⟩

/-- The tokens that the records of a listing show. -/
def readListing (listing : Text) : List Token :=
  (listing.cutWhere Text.endsRecord).filterMap ofRecord?

end Token

theorem Kind.ofLabel?_label (k : Kind) : ofLabel? k.label = some k := by
  cases k <;> decide +kernel

@[simp] theorem Token.ofRecord?_record (t : Token) : ofRecord? t.record = some t := by
  have hlength := t.kind.length_label
  have htake : t.record.take labelWidth = t.kind.label := by
    rw [record, ← hlength, List.take_left]
  have hdrop : t.record.drop labelWidth = t.text := by
    rw [record, ← hlength, List.drop_left]
  rw [ofRecord?, htake, hdrop, Kind.ofLabel?_label, Option.map_some]

/-! ### Texts without line feeds outside of quotes -/

namespace Text

/-- Line feeds are quoted. -/
def Unbroken (t : Text) : Prop :=
  ∀ before after : Text, t = before ++ '\n' :: after →
    (Quoting.outside.after before).isOpen = true

theorem unbroken_of_notMem {t : Text} (h : '\n' ∉ t) : t.Unbroken := by
  rintro before after rfl
  exact absurd (List.mem_append_right before List.mem_cons_self) h

/-- Blank characters outside of quotes are spaces, so none of them is a line feed. -/
theorem IsSqueezed.unbroken {t : Text} (h : t.IsSqueezed) : t.Unbroken := by
  intro before after heq
  cases hstate : Quoting.outside.after before with
  | outside =>
    obtain ⟨hspace, -⟩ := h before after '\n' heq (by decide) hstate
    exact absurd hspace (by decide)
  | inside q => rfl
  | escaped q => rfl

theorem Unbroken.append {t u : Text} (ht : t.Unbroken) (hclosed : t.Closed) (hu : u.Unbroken) :
    (t ++ u).Unbroken := by
  have hstate : Quoting.outside.after t = .outside := hclosed
  intro before after heq
  rcases List.append_eq_append_iff.1 heq with ⟨front, rfl, hsplit⟩ | ⟨tail, rfl, hsplit⟩
  · rw [Quoting.after_append, hstate]
    exact hu front after hsplit
  · cases tail with
    | nil => exact absurd (hu [] after hsplit.symm) Bool.false_ne_true
    | cons c tail =>
      obtain ⟨rfl, -⟩ := List.cons.inj hsplit
      exact ht before tail rfl

/-- Behind a text that leaves no region open, an unbroken one is not cut. -/
theorem Unbroken.cutFrom_eq {before t : Text} (h : t.Unbroken) (hbefore : before.Closed) :
    cutFrom endsRecord before t = [t] := by
  have hstate : Quoting.outside.after before = .outside := hbefore
  refine cutFrom_eq_singleton fun u c v heq => ?_
  by_cases hc : c = '\n'
  · subst hc
    rw [endsRecord, Quoting.after_append, hstate, h u v heq]
    rfl
  · simp [endsRecord, hc]

theorem endsRecord_line_feed {before : Text} (h : before.Closed) :
    endsRecord before '\n' = true := by
  have hstate : Quoting.outside.after before = .outside := h
  rw [endsRecord, hstate]
  rfl

end Text

/-! ### Records -/

theorem Kind.line_feed_notMem_of_mem_spellings (k : Kind) :
    ∀ s ∈ k.spellings.map String.toList, '\n' ∉ s := by
  cases k <;> decide

theorem Kind.line_feed_notMem_label (k : Kind) : '\n' ∉ k.label := by
  cases k <;> decide

theorem Kind.closed_label (k : Kind) : k.label.Closed := by
  cases k <;> rfl

/-- Texts of tokens are unbroken. -/
theorem Text.unbroken_of_mem_tokens {t : Text} {u : Token} (hu : u ∈ t.tokens) :
    u.text.Unbroken := by
  obtain ⟨L, rest, -, htight, rfl | hhit⟩ := exists_of_mem_tokens hu
  · exact htight.isSqueezed_trimEnd_body.unbroken
  · have hspelled := Lexeme.text_mem_spellings_of_hit? hhit
    exact unbroken_of_notMem (u.kind.line_feed_notMem_of_mem_spellings u.text hspelled)

namespace Token

theorem unbroken_record {t : Token} (h : t.text.Unbroken) : t.record.Unbroken :=
  (Text.unbroken_of_notMem t.kind.line_feed_notMem_label).append t.kind.closed_label h

theorem closed_record {t : Token} (h : t.text.Closed) : t.record.Closed :=
  t.kind.closed_label.append h

/-- The line feeds outside of quotes are the ends of the records. -/
theorem cutWhere_listing {ts : List Token} (hne : ts ≠ []) (hunbroken : ∀ t ∈ ts, t.text.Unbroken)
    (hclosed : ∀ t ∈ ts.dropLast, t.text.Closed) :
    (listing ts).cutWhere Text.endsRecord = ts.map record := by
  have hfront : Text.Closed [] := rfl
  refine Text.cutFrom_intercalate Text.Closed (by simpa using hne) ?_ ?_ hfront
  · intro u hu
    refine List.forall_mem_map.2 fun t ht => ?_
    exact (unbroken_record (hunbroken t ht)).cutFrom_eq hu
  · intro u hu
    rw [← List.map_dropLast]
    refine List.forall_mem_map.2 fun t ht => ?_
    have hrecord := hu.append (closed_record (hclosed t ht))
    exact ⟨Text.endsRecord_line_feed hrecord, hrecord.append rfl⟩

/-- The tokens of a text have one record each. -/
theorem cutWhere_listing_tokens {t : Text} (hne : t.tokens ≠ []) :
    (listing t.tokens).cutWhere Text.endsRecord = t.tokens.map record :=
  cutWhere_listing hne (fun _ => Text.unbroken_of_mem_tokens) fun u hu =>
    (t.openOnlyLast_tokens.complete_of_mem_dropLast u hu).closed

/-- The tokens of a text are found again in their listing. -/
theorem readListing_listing (t : Text) : readListing (listing t.tokens) = t.tokens := by
  by_cases hne : t.tokens = []
  · rw [hne]
    decide +kernel
  · have hrecords : ofRecord? ∘ record = some := by
      funext u
      rw [Function.comp_apply, ofRecord?_record]
    rw [readListing, cutWhere_listing_tokens hne, List.filterMap_map, hrecords, List.filterMap_some]

end Token

/-- The line feeds of a listing that stand outside of quotes are the ends of its records: each token
has one, the name of its kind padded with spaces and then its text.  So the tokens of a statement
are found again in what is shown of it, and statements that are shown alike have the same tokens. -/
theorem listings_read_back :
    (∀ raw : Text, ∃ listing, Mode.listing.display raw = .printed listing ∧
      (listing ≠ [] → listing.cutWhere Text.endsRecord =
        (Statement.ofText raw).sql.tokens.map fun t => t.kind.label ++ t.text) ∧
      Token.readListing listing = (Statement.ofText raw).sql.tokens) ∧
    ∀ raw raw' : Text, Mode.listing.display raw = Mode.listing.display raw' ↔
      (Statement.ofText raw).sql.tokens = (Statement.ofText raw').sql.tokens := by
  refine ⟨fun raw => ⟨Token.listing (Statement.ofText raw).sql.tokens, rfl, fun hne => ?_,
    Token.readListing_listing (Statement.ofText raw).sql⟩, fun raw raw' => ?_⟩
  · exact Token.cutWhere_listing_tokens fun hnil => hne (by rw [hnil]; rfl)
  · constructor
    · intro hshown
      have hlisting := Program.printed_inj.1 hshown
      rw [← Token.readListing_listing (Statement.ofText raw).sql, hlisting,
        Token.readListing_listing]
    · intro htokens
      rw [Mode.display, Mode.display, htokens]

/-- A literal that goes on with what looks like a record on a line of its own. -/
theorem listings_read_back_of_literal :
    let raw : Text := "select 'a\nFROM    FROM', \"b".toList
    let listing : Text := "SELECT  SELECT\nSTR     'a\nFROM    FROM', \"b".toList
    listing ≠ [] ∧ Mode.listing.display raw = .printed listing ∧
      listing.cutWhere Text.endsRecord =
        ["SELECT  SELECT", "STR     'a\nFROM    FROM', \"b"].map String.toList := by
  intro raw listing
  have hne : listing ≠ [] := by decide
  have hlisting : Mode.listing.display raw = .printed listing :=
    congrArg Program.printed (by decide +kernel)
  obtain ⟨shown, hshown, hrecords, -⟩ := listings_read_back.1 raw
  have hsame : shown = listing := Program.printed_inj.1 (hshown.symm.trans hlisting)
  rw [hsame] at hrecords
  exact ⟨hne, hlisting, (hrecords hne).trans (by decide +kernel)⟩

end SqlLayout
