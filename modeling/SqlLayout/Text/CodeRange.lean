/-!
# Ranges of code points

Character classes are given as ascending lists of disjoint ranges of code points.  This file holds
such ranges and the search in them.

## Main definitions

* `CodeRange` : the code points from a first to a last one.
* `CodeRange.covers` : the search of a code point in an ascending list of ranges.
* `CodeRange.codes` : the code points of a range.

## Main results

* `CodeRange.exists_mem_codes_of_covers` : a code point that is found lies in one of the ranges.
-/

namespace SqlLayout

/-- The code points from `first` to `last`, both included. -/
structure CodeRange where
  first : Nat
  last : Nat
  deriving DecidableEq

namespace CodeRange

/-- The search of a code point in an ascending list of ranges.  It ends at the first range that
begins above the code point, since no later one can hold it. -/
def covers : List CodeRange → Nat → Bool
  | [], _ => false
  | r :: rs, n => if n < r.first then false else n ≤ r.last || covers rs n

/-- The code points of a range, in ascending order. -/
def codes (r : CodeRange) : List Nat := List.range' r.first (r.last + 1 - r.first)

theorem mem_codes {r : CodeRange} {n : Nat} : n ∈ r.codes ↔ r.first ≤ n ∧ n ≤ r.last := by
  simp only [codes, List.mem_range'_1]
  omega

/-- A code point that is found lies in one of the ranges. -/
theorem exists_mem_codes_of_covers {rs : List CodeRange} {n : Nat} (h : covers rs n = true) :
    ∃ r ∈ rs, n ∈ r.codes := by
  induction rs with
  | nil => simp [covers] at h
  | cons r rs ih =>
    unfold covers at h
    split at h
    · simp at h
    · rename_i hfirst
      rcases Bool.or_eq_true_iff.1 h with hlast | hrest
      · exact ⟨r, List.mem_cons_self, mem_codes.2 ⟨by omega, by simpa using hlast⟩⟩
      · obtain ⟨r', hr', hn⟩ := ih hrest
        exact ⟨r', List.mem_cons_of_mem _ hr', hn⟩

end CodeRange

end SqlLayout
