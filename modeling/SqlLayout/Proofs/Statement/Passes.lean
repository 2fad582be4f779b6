import Mathlib.Data.List.DropRight
import SqlLayout.Proofs.Statement.Meaning
import SqlLayout.Proofs.Text.Raising

/-!
# Statements that are cleaned again

A clean statement is a raw statement again, and may be cleaned once more.  Each pass takes off one
terminator as long as there is one, with the blank characters in front of it, and the first pass
does everything else.  So the text is a fixed point as soon as no terminator is left at its end.

## Main definitions

* `Text.trailer`, `Text.core` : the blank characters and terminators at the end of a text, and what
  stands in front of them.
* `Text.terminators` : the number of terminators at the end of a text.
* `Statement.passes` : the text behind a number of passes.

## Main results

* `Statement.ofText_append_terminator`, `Statement.ofText_of_getLast?_ne` : the clean form of a raw
  statement with and without a terminator at its end.
* `Statement.ofText_upperKeywords` : a pass finds the same in a text with keywords in upper case.
* `Statement.passes_peel_terminators` : what each pass does.
-/

namespace SqlLayout

/-! ### What ends a text -/

/-- The characters that may stand behind a statement: blank ones, and terminators. -/
def isTrailing (c : Char) : Bool := isBlank c || c == terminator

namespace Text

/-- The longest part at the end of a text that has only blank characters and terminators. -/
def trailer (t : Text) : Text := t.rtakeWhile isTrailing

/-- The text without the blank characters and terminators at its end. -/
def core (t : Text) : Text := t.rdropWhile isTrailing

/-- The number of terminators among the blank characters and terminators at the end of a text. -/
def terminators (t : Text) : Nat := t.trailer.count terminator

theorem core_append {t u : Text} (hu : ∀ c ∈ u, isTrailing c = true) : (t ++ u).core = t.core := by
  rw [core, core, rdropWhile_append hu]

theorem trailer_append {t u : Text} (hu : ∀ c ∈ u, isTrailing c = true) :
    (t ++ u).trailer = t.trailer ++ u := by
  have hreverse : ∀ c ∈ u.reverse, isTrailing c = true := fun c hc => hu c (List.mem_reverse.1 hc)
  rw [trailer, List.rtakeWhile, List.reverse_append, List.takeWhile_append_of_pos hreverse,
    List.reverse_append, List.reverse_reverse]
  rfl

theorem isTrailing_of_isBlank {gap : Text} (h : gap.IsBlank) : ∀ c ∈ gap, isTrailing c = true :=
  fun c hc => by rw [isTrailing, h c hc, Bool.true_or]

theorem count_terminator_of_isBlank {gap : Text} (h : gap.IsBlank) : gap.count terminator = 0 := by
  rw [List.count_eq_zero]
  exact fun hmem => absurd (h _ hmem) (by decide)

theorem isTrailing_of_mem_cons {gap : Text} (h : gap.IsBlank) :
    ∀ c ∈ terminator :: gap, isTrailing c = true :=
  List.forall_mem_cons.2 ⟨rfl, isTrailing_of_isBlank h⟩

/-- One more terminator at the end of a text. -/
theorem terminators_append {gap : Text} (h : gap.IsBlank) (t : Text) :
    (t ++ terminator :: gap).terminators = t.terminators + 1 := by
  rw [terminators, trailer_append (isTrailing_of_mem_cons h), List.count_append,
    List.count_cons_self, count_terminator_of_isBlank h]
  rfl

/-- A text that ends in a terminator, but for blank characters. -/
theorem exists_of_getLast?_trim {t : Text} (h : t.trim.getLast? = some terminator) :
    ∃ body gap : Text, gap.IsBlank ∧ t = body ++ terminator :: gap := by
  obtain ⟨front, behind, -, hbehind, heq⟩ := t.exists_trim_append
  obtain ⟨body, hbody⟩ := List.getLast?_eq_some_iff.1 h
  refine ⟨front ++ body, behind, hbehind, ?_⟩
  rw [heq, hbody]
  simp

theorem core_of_isBlank {t : Text} (h : t.IsBlank) : t.terminators = 0 ∧ t.core = [] := by
  have htrailing := isTrailing_of_isBlank h
  constructor
  · rw [terminators, ← List.nil_append t, trailer_append htrailing, List.count_append,
      count_terminator_of_isBlank h]
    rfl
  · rw [← List.nil_append t, core_append htrailing]
    rfl

theorem core_solid_end {u gap : Text} {c : Char} (hc : isTrailing c = false) (h : gap.IsBlank) :
    (u ++ [c] ++ gap).terminators = 0 ∧ (u ++ [c] ++ gap).core = u ++ [c] := by
  have htrailing := isTrailing_of_isBlank h
  have hne : ¬ isTrailing c = true := by simp [hc]
  constructor
  · rw [terminators, trailer_append htrailing, trailer, List.rtakeWhile_concat_neg _ _ _ hne,
      List.nil_append, count_terminator_of_isBlank h]
  · rw [core_append htrailing, core, List.rdropWhile_concat_neg _ _ _ hne]

/-- A text that does not end in a terminator, even without the blank characters at its end. -/
theorem core_of_getLast?_ne {t : Text} (h : t.trim.getLast? ≠ some terminator) :
    t.terminators = 0 ∧ t.core.trimStart = t.trim := by
  obtain ⟨front, behind, hfront, hbehind, heq⟩ := t.exists_trim_append
  have hsolid := t.trim_eq_nil_or_isSolid
  generalize t.trim = m at h heq hsolid ⊢
  subst heq
  rcases hsolid with rfl | ⟨⟨b, u, hstart, hb⟩, v, c, hend, hc⟩
  · obtain ⟨hcount, hcore⟩ := core_of_isBlank (hfront.append (isBlank_nil.append hbehind))
    exact ⟨hcount, by rw [hcore, trimStart_nil]⟩
  · have hne : isTrailing c = false := by
      rw [hend, List.getLast?_concat] at h
      rw [isTrailing, hc, Bool.false_or, beq_eq_false_iff_ne]
      exact fun hterminator => h (congrArg some hterminator)
    have hstarts : startsBlank m = false := by
      rw [hstart]
      exact hb
    have hsplit : front ++ (m ++ behind) = front ++ v ++ [c] ++ behind := by simp [hend]
    have hbody : front ++ v ++ [c] = front ++ m := by rw [hend, List.append_assoc]
    obtain ⟨hcount, hcore⟩ := core_solid_end (u := front ++ v) hne hbehind
    rw [hsplit]
    refine ⟨hcount, ?_⟩
    rw [hcore, hbody]
    exact (Lexeme.takeWhile_gap_append hfront hstarts).2

/-- A text with no terminator at its end. -/
theorem getLast?_ne_of_terminators {t : Text} (h : t.terminators = 0) :
    t.trim.getLast? ≠ some terminator := by
  intro hlast
  obtain ⟨body, gap, hgap, rfl⟩ := exists_of_getLast?_trim hlast
  rw [terminators_append hgap] at h
  cases h

/-- A text with terminators at its end, cut in front of the last of them. -/
theorem exists_of_terminators {t : Text} {k : Nat} (h : t.terminators = k + 1) :
    ∃ body gap : Text, gap.IsBlank ∧ body.terminators = k ∧ t = body ++ terminator :: gap := by
  have hlast : t.trim.getLast? = some terminator := by
    by_contra hne
    rw [(core_of_getLast?_ne hne).1] at h
    cases h
  obtain ⟨body, gap, hgap, rfl⟩ := exists_of_getLast?_trim hlast
  rw [terminators_append hgap] at h
  exact ⟨body, gap, hgap, Nat.succ.inj h, rfl⟩

end Text

/-! ### One pass -/

namespace Statement

/-- The clean form of a raw statement that ends in a terminator, but for blank characters. -/
theorem ofText_append_terminator (t : Text) {gap : Text} (h : gap.IsBlank) :
    ofText (t ++ terminator :: gap) = ⟨t.trim.upperKeywords, true⟩ := by
  have hsolid : Text.IsSolid (t.trimStart ++ [terminator]) := by
    refine ⟨?_, t.trimStart, terminator, rfl, by decide⟩
    have hstart := t.startsBlank_trimStart
    cases hrest : t.trimStart with
    | nil => exact ⟨terminator, [], rfl, by decide⟩
    | cons c u =>
      rw [hrest] at hstart
      exact ⟨c, u ++ [terminator], rfl, hstart⟩
  have htrim : (t ++ terminator :: gap).trim = t.trimStart ++ [terminator] := by
    have hall := Text.trim_append t.isBlank_takeWhile h (Or.inr hsolid)
    rw [List.append_assoc, ← List.append_assoc, Text.takeWhile_append_trimStart] at hall
    exact hall
  rw [ofText, htrim, Text.splitTerminator?_eq_some_iff.2 rfl]
  rfl

/-- The clean form of a raw statement that ends in no terminator. -/
theorem ofText_of_getLast?_ne {t : Text} (h : t.trim.getLast? ≠ some terminator) :
    ofText t = ⟨t.trim.upperKeywords, false⟩ := by
  rw [ofText, Text.splitTerminator?, if_neg h]

/-- A clean text is a trimmed one with keywords in upper case. -/
theorem exists_sql_eq (raw : Text) : ∃ t : Text, (ofText raw).sql = t.trim.upperKeywords := by
  by_cases h : raw.trim.getLast? = some terminator
  · obtain ⟨body, gap, hgap, rfl⟩ := Text.exists_of_getLast?_trim h
    exact ⟨body, by rw [ofText_append_terminator body hgap]⟩
  · exact ⟨raw, by rw [ofText_of_getLast?_ne h]⟩

/-- Blank characters at the ends of a raw statement do not matter to its clean form. -/
@[simp] theorem ofText_trim (raw : Text) : ofText raw.trim = ofText raw := by
  rw [ofText, Text.trim_trim, ofText]

/-- The letter case of its keywords does not matter to the clean form of a raw statement. -/
@[simp] theorem ofText_upperKeywords (raw : Text) : ofText raw.upperKeywords = ofText raw := by
  by_cases h : raw.trim.getLast? = some terminator
  · obtain ⟨body, gap, hgap, rfl⟩ := Text.exists_of_getLast?_trim h
    have hword : ∀ c ∈ terminator :: gap, isWordChar c = false :=
      List.forall_mem_cons.2 ⟨by decide, fun c hc => isWordChar_of_isBlank (hgap c hc)⟩
    rw [Text.upperKeywords_append body hword, ofText_append_terminator _ hgap,
      ofText_append_terminator _ hgap, Text.trim_upperKeywords, Text.upperKeywords_upperKeywords]
  · have hupper : raw.upperKeywords.trim.getLast? ≠ some terminator := by
      rw [Text.trim_upperKeywords]
      exact Text.getLast?_upperKeywords_ne h
    rw [ofText_of_getLast?_ne h, ofText_of_getLast?_ne hupper, Text.trim_upperKeywords,
      Text.upperKeywords_upperKeywords]

/-- A clean text is trimmed. -/
@[simp] theorem trim_sql (raw : Text) : (ofText raw).sql.trim = (ofText raw).sql := by
  obtain ⟨t, hsql⟩ := exists_sql_eq raw
  rw [hsql, Text.trim_upperKeywords, Text.trim_trim]

/-- The keywords of a clean text are in upper case. -/
@[simp] theorem upperKeywords_sql (raw : Text) :
    (ofText raw).sql.upperKeywords = (ofText raw).sql := by
  obtain ⟨t, hsql⟩ := exists_sql_eq raw
  rw [hsql, Text.upperKeywords_upperKeywords]

/-- A clean text that does not end in a terminator is cleaned as it is. -/
theorem ofText_sql {raw : Text} (h : (ofText raw).sql.getLast? ≠ some terminator) :
    ofText (ofText raw).sql = ⟨(ofText raw).sql, false⟩ := by
  rw [ofText_of_getLast?_ne (by rwa [trim_sql]), trim_sql, upperKeywords_sql]

/-! ### Many passes -/

/-- The text behind a number of passes. -/
def passes : Nat → Text → Text
  | 0, raw => raw
  | n + 1, raw => passes n (ofText raw).sql

/-- The last pass takes what the passes in front of it have left. -/
theorem passes_succ (n : Nat) (raw : Text) : passes (n + 1) raw = (ofText (passes n raw)).sql := by
  induction n generalizing raw with
  | zero => rfl
  | succ n ih => exact ih (ofText raw).sql

/-- Passes behind the first one find the same if that one found no terminator. -/
theorem ofText_passes_of_getLast?_ne {raw : Text} (h : raw.trim.getLast? ≠ some terminator)
    (n : Nat) : ofText (passes n raw) = ⟨raw.trim.upperKeywords, false⟩ := by
  induction n with
  | zero => exact ofText_of_getLast?_ne h
  | succ n ih => rw [passes_succ, ih, ofText_upperKeywords, ofText_trim, ofText_of_getLast?_ne h]

/-- Behind a pass that takes off a terminator, passes find what they find in the text in front of
the terminator. -/
theorem ofText_passes_append_terminator (t : Text) {gap : Text} (h : gap.IsBlank) (n : Nat) :
    ofText (passes (n + 1) (t ++ terminator :: gap)) = ofText (passes n t) := by
  induction n with
  | zero =>
    rw [passes_succ, passes, passes, ofText_append_terminator t h, ofText_upperKeywords,
      ofText_trim]
  | succ n ih => rw [passes_succ, ih, passes_succ n t]

/-- Each pass takes off one terminator as long as there is one. -/
theorem terminated_passes_iff (raw : Text) (n : Nat) :
    (ofText (passes n raw)).terminated = true ↔ n < raw.terminators := by
  -- on the number of terminators: the first pass leaves the text in front of the last of them
  induction hk : raw.terminators generalizing raw n with
  | zero => simp [ofText_passes_of_getLast?_ne (Text.getLast?_ne_of_terminators hk)]
  | succ k ih =>
    obtain ⟨body, gap, hgap, hbody, rfl⟩ := Text.exists_of_terminators hk
    cases n with
    | zero => simp [passes, ofText_append_terminator body hgap]
    | succ n =>
      rw [ofText_passes_append_terminator body hgap, ih body n hbody, Nat.add_lt_add_iff_right]

/-- Behind the pass that takes off the last terminator, the text has lost what stands at its end and
the blank characters at its start, and its keywords are in upper case. -/
theorem passes_terminators (raw : Text) :
    passes (max raw.terminators 1) raw = raw.core.trimStart.upperKeywords := by
  have hmax (k : Nat) : max (k + 1) 1 = k + 1 := Nat.max_eq_left (Nat.le_add_left 1 k)
  induction hk : raw.terminators generalizing raw with
  | zero =>
    have hlast := Text.getLast?_ne_of_terminators hk
    rw [(Text.core_of_getLast?_ne hlast).2, Nat.zero_max, passes, ofText_of_getLast?_ne hlast,
      passes]
  | succ k ih =>
    obtain ⟨body, gap, hgap, hbody, rfl⟩ := Text.exists_of_terminators hk
    rw [hmax, passes_succ, Text.core_append (Text.isTrailing_of_mem_cons hgap),
      ← ih body hbody]
    -- one pass is made even if there is no other terminator
    cases k with
    | zero =>
      have hlast := Text.getLast?_ne_of_terminators hbody
      rw [Nat.zero_max, passes, passes, passes, ofText_append_terminator body hgap,
        ofText_of_getLast?_ne hlast]
    | succ k => rw [ofText_passes_append_terminator body hgap, hmax, passes_succ]

/-- Behind the pass that takes off the last terminator nothing is changed any more. -/
theorem ofText_passes_of_le {raw : Text} {n : Nat} (h : raw.terminators ≤ n + 1) :
    ofText (passes (n + 1) raw) = ⟨passes (n + 1) raw, false⟩ := by
  have hlast := mt (terminated_passes_iff raw (n + 1)).1 (Nat.not_lt.2 h)
  rw [passes_succ, terminated_iff, trim_sql] at hlast
  rw [passes_succ, ofText_sql hlast]

/-- What passes do to a raw statement.  As many of them find a terminator as there are at its end.
Behind the last of these the text is a fixed point: the raw statement without the blank characters
and terminators at its end and the blank characters at its start, with keywords in upper case.  A
clean text that does not end in a terminator is a fixed point, and one terminator behind a raw
statement that ends in none changes nothing but that it is found. -/
theorem passes_peel_terminators (raw : Text) :
    (∀ n, (ofText (passes n raw)).terminated = true ↔ n < raw.terminators) ∧
      passes (max raw.terminators 1) raw = raw.core.trimStart.upperKeywords ∧
      ofText raw.core.trimStart.upperKeywords = ⟨raw.core.trimStart.upperKeywords, false⟩ ∧
      ((ofText raw).sql.getLast? ≠ some terminator →
        ofText (ofText raw).sql = ⟨(ofText raw).sql, false⟩) ∧
      ∀ s gap : Text, s.trim.getLast? ≠ some terminator → gap.IsBlank →
        ofText (s ++ gap ++ [terminator]) = ⟨(ofText s).sql, true⟩ := by
  refine ⟨terminated_passes_iff raw, passes_terminators raw, ?_, ofText_sql, ?_⟩
  · obtain ⟨n, hn⟩ : ∃ n, max raw.terminators 1 = n + 1 :=
      Nat.exists_eq_add_one.2 (Nat.lt_of_lt_of_le Nat.one_pos (Nat.le_max_right _ 1))
    rw [← passes_terminators, hn]
    exact ofText_passes_of_le (hn ▸ Nat.le_max_left _ 1)
  · intro s gap hs hgap
    rw [ofText_append_terminator (s ++ gap) Text.isBlank_nil, Text.trim_append_of_isBlank s hgap,
      ofText_of_getLast?_ne hs]

/-- Three terminators at the end of a region that is left open, and statements with one of them. -/
theorem passes_peel_terminators_open_region :
    (ofText (passes 1 " select 'in ;\t;; ".toList)).terminated = true ∧
      passes 3 " select 'in ;\t;; ".toList = "SELECT 'in".toList ∧
      ofText (ofText "select 1 ;".toList).sql = ⟨(ofText "select 1 ;".toList).sql, false⟩ ∧
      ofText ("from a ".toList ++ ['\t'] ++ [terminator]) =
        ⟨(ofText "from a ".toList).sql, true⟩ := by
  obtain ⟨hflag, htext, -, -, hround⟩ := passes_peel_terminators " select 'in ;\t;; ".toList
  have hk : Text.terminators " select 'in ;\t;; ".toList = 3 := by decide +kernel
  rw [hk] at hflag htext
  exact ⟨(hflag 1).2 (by decide), htext.trans (by decide +kernel),
    (passes_peel_terminators "select 1 ;".toList).2.2.2.1 (by decide +kernel),
    hround "from a ".toList ['\t'] (by decide +kernel) (List.forall_mem_singleton.2 (by decide))⟩

end Statement

end SqlLayout
