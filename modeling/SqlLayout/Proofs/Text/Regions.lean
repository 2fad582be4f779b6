import SqlLayout.Proofs.Text.LetterCase

/-!
# The regions of a text

Quoted regions have a grammar of their own, in which no reader goes from character to character.  A
region has its quote at both ends, and between them elements, which are escaped characters and
characters that need no escape.  Between regions stand texts without quote characters.  Only behind
all of them a region may be left unfinished, with a last backslash that escapes nothing.

Every text has just one division of this kind.  Where the elements of a region end is told by what
follows them, which is the quote, the end of the text, or that backslash.  None of these is the
beginning of another element.

## Main definitions

* `Quote.Element`, `Region`, `OpenRegion`, `Unquoted` : the parts of the grammar.
* `Division` : a text divided into quoted regions and what stands between them.

## Main results

* `Division.exists_text_eq` : every text has a division.
* `Division.text_injective` : no text has two of them.
* `Division.exists_reads` : what a reader makes of a division.
* `regions_of_text` : a reader finds the regions of the only division of a text.
-/

namespace SqlLayout

/-! ### The grammar -/

/-- An element of a region: a character behind a backslash, or one that is neither the quote of the
region nor a backslash. -/
inductive Quote.Element (q : Quote) where
  | escape (c : Char)
  | plain (c : Char) (ne_quote : c ≠ q.char) (ne_backslash : c ≠ '\\')

namespace Quote

/-- The text of an element. -/
def Element.text {q : Quote} : q.Element → Text
  | escape c => ['\\', c]
  | plain c _ _ => [c]

/-- The text of elements. -/
def body {q : Quote} (elements : List q.Element) : Text := elements.flatMap Element.text

/-- What is left of a region behind its elements if it is not finished: nothing, or a backslash. -/
def stub (dangling : Bool) : Text := if dangling then ['\\'] else []

end Quote

/-- A quoted region. -/
structure Region where
  quote : Quote
  elements : List quote.Element

/-- A region that is not closed.  A backslash may be left behind its elements. -/
structure OpenRegion where
  quote : Quote
  elements : List quote.Element
  dangling : Bool

/-- A text without quote characters. -/
@[ext]
structure Unquoted where
  text : Text
  not_isQuote : ∀ c ∈ text, isQuote c = false

/-- A text divided into quoted regions and the texts in front of them, between them and behind them.
If there is an unfinished region, it stands behind all of these. -/
structure Division where
  first : Unquoted
  regions : List (Region × Unquoted)
  unfinished : Option OpenRegion

/-- The text of a region, with its quotes. -/
def Region.text (r : Region) : Text := r.quote.char :: (Quote.body r.elements ++ [r.quote.char])

/-- The text of a region that is not closed. -/
def OpenRegion.text (r : OpenRegion) : Text :=
  r.quote.char :: (Quote.body r.elements ++ Quote.stub r.dangling)

/-- One answer for every character of a text: whether it belongs to a region. -/
def Text.alike (t : Text) (covered : Bool) : List Bool := List.replicate t.length covered

@[simp] theorem Text.alike_append (t u : Text) (covered : Bool) :
    Text.alike (t ++ u) covered = t.alike covered ++ u.alike covered := by
  simp [Text.alike]

namespace Division

/-- The text from the first region on. -/
def rest (regions : List (Region × Unquoted)) (unfinished : Option OpenRegion) : Text :=
  regions.flatMap (fun part => part.1.text ++ part.2.text) ++ unfinished.elim [] OpenRegion.text

/-- The text that is divided. -/
def text (d : Division) : Text := d.first.text ++ rest d.regions d.unfinished

/-- For each character of the text, whether it belongs to one of the regions. -/
def mask (d : Division) : List Bool :=
  d.first.text.alike false ++
    (d.regions.flatMap (fun part => part.1.text.alike true ++ part.2.text.alike false) ++
      Text.alike (d.unfinished.elim [] OpenRegion.text) true)

end Division

/-! ### Every text has a division -/

namespace Division

/-- A text that stands behind an opened quote: elements with a quote and a division behind them, or
elements with nothing but the end of the text. -/
def Continues (q : Quote) (t : Text) : Prop :=
  (∃ (elements : List q.Element) (d : Division), t = Quote.body elements ++ q.char :: d.text) ∨
    ∃ (elements : List q.Element) (dangling : Bool), t = Quote.body elements ++ Quote.stub dangling

theorem Continues.cons {q : Quote} {t : Text} (h : Continues q t) (e : q.Element) :
    Continues q (e.text ++ t) := by
  rcases h with ⟨elements, d, rfl⟩ | ⟨elements, dangling, rfl⟩
  · exact Or.inl ⟨e :: elements, d, (List.append_assoc _ _ _).symm⟩
  · exact Or.inr ⟨e :: elements, dangling, (List.append_assoc _ _ _).symm⟩

/-- An opened quote and what stands behind it are a region of a division. -/
theorem Continues.exists_text_eq {q : Quote} {t : Text} (h : Continues q t) :
    ∃ d : Division, d.text = q.char :: t := by
  have hnone : ∀ c ∈ ([] : Text), isQuote c = false := List.forall_mem_nil _
  rcases h with ⟨elements, d, rfl⟩ | ⟨elements, dangling, rfl⟩
  · refine ⟨⟨⟨[], hnone⟩, (⟨q, elements⟩, d.first) :: d.regions, d.unfinished⟩, ?_⟩
    simp [text, rest, Region.text]
  · refine ⟨⟨⟨[], hnone⟩, [], some ⟨q, elements, dangling⟩⟩, ?_⟩
    simp [text, rest, OpenRegion.text]

/-- A character that is no quote belongs to what stands in front of the first region. -/
theorem exists_text_eq_cons {c : Char} (hc : isQuote c = false) (d : Division) :
    ∃ d' : Division, d'.text = c :: d.text :=
  ⟨⟨⟨c :: d.first.text, List.forall_mem_cons.2 ⟨hc, d.first.not_isQuote⟩⟩, d.regions,
    d.unfinished⟩, rfl⟩

/-- The induction goes through what a text is outside of regions, inside a region, and inside a
region behind a backslash. -/
theorem exists_text_eq_and_continues (t : Text) :
    (∃ d : Division, d.text = t) ∧
      ∀ q : Quote, Continues q t ∧ Continues q ('\\' :: t) := by
  induction t with
  | nil =>
    refine ⟨⟨⟨⟨[], List.forall_mem_nil _⟩, [], none⟩, rfl⟩, fun q => ⟨?_, ?_⟩⟩
    · exact Or.inr ⟨[], false, rfl⟩
    · exact Or.inr ⟨[], true, rfl⟩
  | cons c t ih =>
    obtain ⟨⟨d, hd⟩, hinside⟩ := ih
    refine ⟨?_, fun q => ⟨?_, ?_⟩⟩
    · cases hc : isQuote c with
      | true =>
        obtain ⟨q, rfl⟩ := isQuote_eq_true_iff.1 hc
        exact (hinside q).1.exists_text_eq
      | false =>
        rw [← hd]
        exact exists_text_eq_cons hc d
    · by_cases hbackslash : c = '\\'
      · rw [hbackslash]
        exact (hinside q).2
      · by_cases hquote : c = q.char
        · exact Or.inl ⟨[], d, by rw [hquote, hd]; rfl⟩
        · exact (hinside q).1.cons (.plain c hquote hbackslash)
    · exact (hinside q).1.cons (.escape c)

/-- Every text has a division. -/
theorem exists_text_eq (t : Text) : ∃ d : Division, d.text = t :=
  (exists_text_eq_and_continues t).1

end Division

/-! ### No text has two divisions -/

namespace Quote

variable {q : Quote}

theorem char_ne_backslash (q : Quote) : q.char ≠ '\\' := by
  cases q <;> decide

theorem char_injective {q r : Quote} (h : q.char = r.char) : q = r :=
  Option.some.inj (by rw [← ofChar?_char, h, ofChar?_char])

/-- An element is told by the text that begins with it. -/
theorem Element.text_append_inj {e f : q.Element} {t u : Text} (h : e.text ++ t = f.text ++ u) :
    e = f ∧ t = u := by
  cases e with
  | escape c =>
    cases f with
    | escape d =>
      obtain ⟨-, h⟩ := List.cons.inj h
      obtain ⟨rfl, htail⟩ := List.cons.inj h
      exact ⟨rfl, htail⟩
    | plain d _ hd => exact absurd (List.cons.inj h).1.symm hd
  | plain c _ hc =>
    cases f with
    | escape d => exact absurd (List.cons.inj h).1 hc
    | plain d _ _ =>
      obtain ⟨rfl, htail⟩ := List.cons.inj h
      exact ⟨rfl, htail⟩

/-- What may stand behind the elements of a region: the end of the text, a last backslash, or the
quote. -/
def Ends (q : Quote) (t : Text) : Prop := (∃ dangling, t = stub dangling) ∨ ∃ u, t = q.char :: u

/-- No element stands where the elements of a region end. -/
theorem Ends.ne_append {t : Text} (h : q.Ends t) (e : q.Element) (u : Text) : t ≠ e.text ++ u := by
  rcases h with ⟨dangling, rfl⟩ | ⟨v, rfl⟩
  · cases dangling with
    | false => cases e <;> exact List.cons_ne_nil _ _ ∘ Eq.symm
    | true =>
      cases e with
      | escape c => exact fun h => List.cons_ne_nil _ _ (List.cons.inj h).2.symm
      | plain c _ hc => exact fun h => hc (List.cons.inj h).1.symm
  · cases e with
    | escape c => exact fun h => q.char_ne_backslash (List.cons.inj h).1
    | plain c hc _ => exact fun h => hc (List.cons.inj h).1.symm

/-- The elements of a region are told by the text that begins with them. -/
theorem body_append_inj {E F : List q.Element} {t u : Text} (ht : q.Ends t) (hu : q.Ends u)
    (h : body E ++ t = body F ++ u) : E = F ∧ t = u := by
  induction E generalizing F with
  | nil =>
    cases F with
    | nil => exact ⟨rfl, h⟩
    | cons f F => exact absurd (h.trans (List.append_assoc _ _ _)) (ht.ne_append f _)
  | cons e E ih =>
    cases F with
    | nil => exact absurd (h.symm.trans (List.append_assoc _ _ _)) (hu.ne_append e _)
    | cons f F =>
      have hsplit : e.text ++ (body E ++ t) = f.text ++ (body F ++ u) := by
        simpa [body, List.append_assoc] using h
      obtain ⟨rfl, helements⟩ := Element.text_append_inj hsplit
      obtain ⟨rfl, htail⟩ := ih helements
      exact ⟨rfl, htail⟩

theorem stub_ne_cons (dangling : Bool) (q : Quote) (t : Text) : stub dangling ≠ q.char :: t := by
  cases dangling with
  | false => exact (List.cons_ne_nil _ _).symm
  | true => exact fun h => q.char_ne_backslash (List.cons.inj h).1.symm

theorem stub_injective {a b : Bool} (h : stub a = stub b) : a = b := by
  cases a <;> cases b <;> simp_all [stub]

end Quote

namespace Division

/-- Texts without quote characters are told by what they make up with a text that begins with a
quote or is empty. -/
theorem unquoted_append_inj {a b : Unquoted} {t u : Text}
    (ht : ∀ c ∈ t.head?, isQuote c = true) (hu : ∀ c ∈ u.head?, isQuote c = true)
    (h : a.text ++ t = b.text ++ u) : a = b ∧ t = u := by
  have hfront (a : Unquoted) {t : Text} (ht : ∀ c ∈ t.head?, isQuote c = true) :
      (a.text ++ t).takeWhile (fun c => !isQuote c) = a.text := by
    have hplain : ∀ c ∈ a.text, (!isQuote c) = true := fun c hc => by simp [a.not_isQuote c hc]
    rw [List.takeWhile_append_of_pos hplain]
    cases t with
    | nil => simp
    | cons c t => simp [ht c rfl]
  have htext : a.text = b.text := by rw [← hfront a ht, h, hfront b hu]
  refine ⟨Unquoted.ext htext, ?_⟩
  rw [htext] at h
  exact List.append_cancel_left h

theorem isQuote_of_mem_head?_rest (regions : List (Region × Unquoted))
    (unfinished : Option OpenRegion) : ∀ c ∈ (rest regions unfinished).head?, isQuote c = true := by
  have hquote (q : Quote) : isQuote q.char = true := isQuote_eq_true_iff.2 ⟨q, rfl⟩
  cases regions with
  | cons part regions =>
    rintro c ⟨⟩
    exact hquote _
  | nil =>
    cases unfinished with
    | none => nofun
    | some r =>
      rintro c ⟨⟩
      exact hquote _

theorem rest_cons (r : Region) (u : Unquoted) (regions : List (Region × Unquoted))
    (unfinished : Option OpenRegion) :
    rest ((r, u) :: regions) unfinished = r.quote.char ::
      (Quote.body r.elements ++ r.quote.char :: (u.text ++ rest regions unfinished)) := by
  simp [rest, Region.text]

/-- A region that is closed is no region that is left open. -/
theorem rest_cons_ne (r : Region) (u : Unquoted) (regions : List (Region × Unquoted))
    (a b : Option OpenRegion) : rest ((r, u) :: regions) a ≠ rest [] b := by
  rw [rest_cons]
  cases b with
  | none => exact List.cons_ne_nil _ _
  | some o =>
    obtain ⟨q, elements, dangling⟩ := o
    intro h
    obtain ⟨hquote, hbody⟩ := List.cons.inj h
    obtain rfl := Quote.char_injective hquote
    obtain ⟨-, hend⟩ := Quote.body_append_inj (Or.inr ⟨_, rfl⟩) (Or.inl ⟨dangling, rfl⟩) hbody
    exact Quote.stub_ne_cons _ _ _ hend.symm

theorem rest_nil_inj {a b : Option OpenRegion} (h : rest [] a = rest [] b) : a = b := by
  cases a with
  | none =>
    cases b with
    | none => rfl
    | some r => cases h
  | some r =>
    cases b with
    | none => cases h
    | some o =>
      obtain ⟨q, elements, dangling⟩ := r
      obtain ⟨q', elements', dangling'⟩ := o
      obtain ⟨hquote, hbody⟩ := List.cons.inj h
      obtain rfl := Quote.char_injective hquote
      obtain ⟨rfl, hend⟩ :=
        Quote.body_append_inj (Or.inl ⟨dangling, rfl⟩) (Or.inl ⟨dangling', rfl⟩) hbody
      rw [Quote.stub_injective hend]

theorem rest_inj {R S : List (Region × Unquoted)} {a b : Option OpenRegion}
    (h : rest R a = rest S b) : R = S ∧ a = b := by
  induction R generalizing S with
  | nil =>
    cases S with
    | nil => exact ⟨rfl, rest_nil_inj h⟩
    | cons part S => exact absurd h.symm (rest_cons_ne part.1 part.2 S b a)
  | cons part R ih =>
    cases S with
    | nil => exact absurd h (rest_cons_ne part.1 part.2 R a b)
    | cons part' S =>
      obtain ⟨⟨q, elements⟩, u⟩ := part
      obtain ⟨⟨q', elements'⟩, u'⟩ := part'
      rw [rest_cons, rest_cons] at h
      obtain ⟨hquote, hbody⟩ := List.cons.inj h
      obtain rfl := Quote.char_injective hquote
      obtain ⟨rfl, hend⟩ := Quote.body_append_inj (Or.inr ⟨_, rfl⟩) (Or.inr ⟨_, rfl⟩) hbody
      obtain ⟨rfl, hrest⟩ := unquoted_append_inj (isQuote_of_mem_head?_rest R a)
        (isQuote_of_mem_head?_rest S b) (List.cons.inj hend).2
      obtain ⟨rfl, rfl⟩ := ih hrest
      exact ⟨rfl, rfl⟩

/-- No text has two divisions. -/
theorem text_injective {d e : Division} (h : d.text = e.text) : d = e := by
  obtain ⟨first, regions, unfinished⟩ := d
  obtain ⟨first', regions', unfinished'⟩ := e
  obtain ⟨rfl, hrest⟩ := unquoted_append_inj (isQuote_of_mem_head?_rest regions unfinished)
    (isQuote_of_mem_head?_rest regions' unfinished') h
  obtain ⟨rfl, rfl⟩ := rest_inj hrest
  rfl

end Division

/-! ### What a reader makes of a division -/

namespace Quoting

variable {s s' s'' : Quoting} {t u : Text}

/-- A reader comes from one state to another over a text, and `mask` says which characters of the
text belong to regions. -/
structure Reads (s : Quoting) (t : Text) (mask : List Bool) (s' : Quoting) : Prop where
  mask : s.mask t = mask
  after : s.after t = s'

theorem reads_nil (s : Quoting) : s.Reads [] [] s := ⟨rfl, rfl⟩

theorem Reads.cons {c : Char} {mask : List Bool} (h : (s.next c).Reads t mask s') :
    s.Reads (c :: t) (s.covers c :: mask) s' :=
  ⟨congrArg (s.covers c :: ·) h.mask, h.after⟩

theorem Reads.append {mask mask' : List Bool} (ht : s.Reads t mask s')
    (hu : s'.Reads u mask' s'') : s.Reads (t ++ u) (mask ++ mask') s'' := by
  obtain ⟨rfl, rfl⟩ := ht
  induction t generalizing s with
  | nil => exact hu
  | cons c t ih => exact (ih hu).cons

theorem next_inside_quote (q : Quote) : (inside q).next q.char = outside := by
  rw [next, if_neg q.char_ne_backslash, if_pos rfl]

theorem reads_element {q : Quote} (e : q.Element) :
    (inside q).Reads e.text (e.text.alike true) (inside q) := by
  cases e with
  | escape c => exact ⟨rfl, rfl⟩
  | plain c hquote hbackslash =>
    refine ⟨rfl, ?_⟩
    rw [Quote.Element.text, after_cons, next, if_neg hbackslash, if_neg hquote, after_nil]

theorem reads_body {q : Quote} (elements : List q.Element) :
    (inside q).Reads (Quote.body elements) ((Quote.body elements).alike true) (inside q) := by
  induction elements with
  | nil => exact reads_nil _
  | cons e elements ih =>
    rw [Quote.body, List.flatMap_cons, Text.alike_append]
    exact (reads_element e).append ih

/-- The quote that opens a region belongs to it. -/
theorem reads_opening {q : Quote} (h : (inside q).Reads t (t.alike true) s) :
    outside.Reads (q.char :: t) (Text.alike (q.char :: t) true) s := by
  have hcovers : outside.covers q.char = true := isQuote_eq_true_iff.2 ⟨q, rfl⟩
  rw [← next_outside_quote] at h
  exact hcovers ▸ h.cons

theorem reads_region (r : Region) : outside.Reads r.text (r.text.alike true) outside := by
  refine reads_opening ?_
  rw [Text.alike_append]
  exact (reads_body r.elements).append ⟨rfl, next_inside_quote r.quote⟩

/-- Behind a region that is left unfinished the reader is inside. -/
theorem exists_reads_openRegion (r : OpenRegion) :
    ∃ s : Quoting, s.isOpen = true ∧ outside.Reads r.text (r.text.alike true) s := by
  have hbody := reads_body r.elements
  have hstub : ∃ s : Quoting, s.isOpen = true ∧
      (inside r.quote).Reads (Quote.stub r.dangling) ((Quote.stub r.dangling).alike true) s := by
    cases r.dangling with
    | false => exact ⟨inside r.quote, rfl, reads_nil _⟩
    | true => exact ⟨escaped r.quote, rfl, rfl, rfl⟩
  obtain ⟨s, hopen, hend⟩ := hstub
  refine ⟨s, hopen, reads_opening ?_⟩
  rw [Text.alike_append]
  exact hbody.append hend

theorem reads_unquoted (u : Unquoted) : outside.Reads u.text (u.text.alike false) outside := by
  obtain ⟨t, ht⟩ := u
  induction t with
  | nil => exact reads_nil _
  | cons c t ih =>
    obtain ⟨hc, ht⟩ := List.forall_mem_cons.1 ht
    have hcovers : outside.covers c = false := hc
    have hread : (outside.next c).Reads t (Text.alike t false) outside := by
      rw [next_outside_of_not_isQuote hc]
      exact ih ht
    exact hcovers ▸ hread.cons

end Quoting

namespace Division

/-- Behind closed regions and the texts between them the reader is outside. -/
theorem reads_regions (regions : List (Region × Unquoted)) :
    Quoting.outside.Reads (regions.flatMap fun part => part.1.text ++ part.2.text)
      (regions.flatMap fun part => part.1.text.alike true ++ part.2.text.alike false) .outside := by
  induction regions with
  | nil => exact Quoting.reads_nil _
  | cons part regions ih =>
    exact ((Quoting.reads_region part.1).append (Quoting.reads_unquoted part.2)).append ih

/-- An unfinished region is all that can leave the reader inside. -/
theorem exists_reads (d : Division) :
    ∃ s : Quoting, s.isOpen = d.unfinished.isSome ∧ Quoting.outside.Reads d.text d.mask s := by
  have hclosed := (Quoting.reads_unquoted d.first).append (reads_regions d.regions)
  have hend : ∃ s : Quoting, s.isOpen = d.unfinished.isSome ∧
      Quoting.outside.Reads (d.unfinished.elim [] OpenRegion.text)
        (Text.alike (d.unfinished.elim [] OpenRegion.text) true) s := by
    cases d.unfinished with
    | none => exact ⟨.outside, rfl, Quoting.reads_nil _⟩
    | some r => exact Quoting.exists_reads_openRegion r
  obtain ⟨s, hopen, hreads⟩ := hend
  refine ⟨s, hopen, ?_⟩
  rw [text, rest, mask, ← List.append_assoc, ← List.append_assoc]
  exact hclosed.append hreads

end Division

/-- Every text has just one division into quoted regions and texts without quote characters between
them.  The characters that belong to quoted regions for a reader are those of the regions of this
division.  Behind the text the reader has a region open exactly if the last one is not finished. -/
theorem regions_of_text :
    (∀ t : Text, ∃! d : Division, d.text = t) ∧
      ∀ d : Division, Quoting.outside.mask d.text = d.mask ∧
        ((Quoting.outside.after d.text).isOpen = true ↔ d.unfinished.isSome = true) := by
  refine ⟨fun t => ?_, fun d => ?_⟩
  · obtain ⟨d, hd⟩ := Division.exists_text_eq t
    exact ⟨d, hd, fun e he => Division.text_injective (he.trans hd.symm)⟩
  · obtain ⟨s, hopen, hreads⟩ := d.exists_reads
    rw [hreads.mask, hreads.after, hopen]
    exact ⟨rfl, Iff.rfl⟩

end SqlLayout
