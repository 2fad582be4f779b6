import SqlLayout.Proofs.Scan.Families
import SqlLayout.Token.Stream

/-!
# The order of the families

A scan tries the families one after the other, and takes the first hit.  Since no two families have
a hit at the start of one text, another order makes no difference: neither to the hits, nor to the
ends of words of free text, nor to the tokens.

## Main results

* `Text.hitIn?_eq` : the order of the families does not matter to hits.
* `Text.tokensIn_eq` : it does not matter to tokens.
* `hits_exclude_each_other` : what the hits of all families at the start of a text are.
-/

namespace SqlLayout

/-! ### No order makes a difference -/

section

variable {order : List Family} (horder : ∀ f, f ∈ order)
include horder

/-- The order of the families does not matter to hits. -/
theorem Text.hitIn?_eq (t : Text) : hitIn? order t = t.hit? := by
  cases hhit : t.hit? with
  | some h =>
    obtain ⟨f, -, hf⟩ := List.exists_of_findSome?_eq_some hhit
    exact Family.findSome?_hit? (horder f) hf
  | none =>
    rw [hit?_eq, List.findSome?_eq_none_iff] at hhit
    exact List.findSome?_eq_none_iff.2 fun f _ => hhit f f.mem_table

theorem Text.wordTailIn_eq (n : Nesting) (closed : Bool) (t : Text) :
    wordTailIn order n closed t = wordTail n closed t := by
  induction t generalizing n closed with
  | nil => rfl
  | cons c t ih =>
    rw [wordTailIn, wordTail_cons, endsWordIn, endsWord_eq, hitIn?_eq horder, hasHit, ih]

theorem Segment.firstIn_eq (c : Char) (t : Text) : firstIn order c t = first c t := by
  have hword : Text.firstWordIn order (c :: t) = Text.firstWord (c :: t) := by
    rw [Text.firstWordIn, Text.firstWord_cons, Text.wordTailIn_eq horder]
  cases hhit : Text.hit? (c :: t) <;> simp [firstIn, first_eq, Text.hitIn?_eq horder, hhit, hword]

theorem Text.segmentsFromIn_eq (taken : Nat) (t : Text) :
    segmentsFromIn order taken t = segmentsFrom taken t := by
  induction t generalizing taken with
  | nil => cases taken <;> rfl
  | cons c t ih =>
    cases taken with
    | zero => rw [segmentsFromIn, segmentsFrom_zero_cons, Segment.firstIn_eq horder, ih]
    | succ taken => exact ih taken

/-- The order of the families does not matter to tokens. -/
theorem Text.tokensIn_eq (t : Text) : tokensIn order t = t.tokens := by
  rw [tokensIn, segmentsFromIn_eq horder]
  rfl

end

/-- At most one family has a hit at the start of a text, so the tokens do not depend on the order in
which the families are tried.  A hit is the longest phrase or symbol of its family, and its token is
what was read, in upper case and with one space for each run of blank characters.  `SELECT` takes a
modifier with it exactly if blank characters and then a word that spells the modifier stand behind
it. -/
theorem hits_exclude_each_other (t : Text) :
    (∀ f g : Family, (f.hit? t).isSome = true → (g.hit? t).isSome = true → f = g) ∧
    (∀ order : List Family, order.Perm Family.table → t.tokensIn order = t.tokens) ∧
    (∀ (f : Family) (h : Hit), f.hit? t = some h → h.IsLongest f t) ∧
    Family.select.hit? t = (Keyword.select.split? t).map fun cut => Hit.ofSelect cut.1 cut.2 := by
  refine ⟨fun f g hf hg => ?_, fun order hperm => ?_, fun f h hf => f.isLongest_of_hit? hf,
    Family.hit?_select t⟩
  · obtain ⟨h, hf⟩ := Option.isSome_iff_exists.1 hf
    obtain ⟨h', hg⟩ := Option.isSome_iff_exists.1 hg
    exact Family.eq_of_hit? hf hg
  · exact Text.tokensIn_eq (fun f => hperm.mem_iff.2 f.mem_table) t

/-- `NOT LIKE` with a wide gap in front of a word that `BINARY` begins. -/
theorem hits_exclude_each_other_not_like :
    (∀ g : Family, (g.hit? "Not \tlike BINARYx".toList).isSome = true → .comparison = g) ∧
      Text.tokensIn Family.table.reverse "Not \tlike BINARYx".toList =
        Text.tokens "Not \tlike BINARYx".toList ∧
      Hit.IsLongest ⟨"Not \tlike".toList, .compare, "NOT LIKE".toList⟩ .comparison
        "Not \tlike BINARYx".toList := by
  obtain ⟨hexclude, horder, hlongest, -⟩ := hits_exclude_each_other "Not \tlike BINARYx".toList
  exact ⟨fun g => hexclude .comparison g (by decide +kernel),
    horder _ (List.reverse_perm Family.table), hlongest _ _ (by decide +kernel)⟩

end SqlLayout
