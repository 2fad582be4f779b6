import SqlLayout.Layout.Page
import SqlLayout.Proofs.Scan.Parts

/-!
# Clauses stand alone

A clause finishes the line that is open in front of it, and neither that line nor what it belongs
to decides about the place of anything behind.  So lines are laid out clause by clause.  Tokens are
read clause by clause too, where a clause begins behind a gap at the top level.

## Main results

* `Page.lines_append` : the lines of tokens in front of a clause, and those of the clause.
* `clauses_apart` : tokens and lines on the two sides of the beginning of a clause.
-/

namespace SqlLayout

namespace Page

/-- A clause finishes the open line.  Nothing else of the page is left behind it. -/
theorem add_of_opensClause {t : Token} (h : t.kind.opensClause = true) (i : Indent) (p : Page) :
    p.add i t = (p.close ++ (blank.add i t).1, (blank.add i t).2) := by
  obtain ⟨kind, text⟩ := t
  have hblank : blank.close = [] := rfl
  cases kind with
  | select | «from» | «where» | group | having | order | limit | offset => simp [add, hblank]
  | join | on | compare | and | or | «in» | str => cases h

/-- The lines of tokens in front of a clause, and those of the clause and of what follows it. -/
theorem lines_append {t : Token} (h : t.kind.opensClause = true) (i : Indent) (ts us : List Token) :
    lines i (ts ++ t :: us) = lines i ts ++ lines i (t :: us) := by
  have hclause (p : Page) : p.addAll i (t :: us) =
      (p.close ++ (blank.addAll i (t :: us)).1, (blank.addAll i (t :: us)).2) := by
    rw [addAll, addAll, add_of_opensClause h i p, List.append_assoc]
  simp only [lines, addAll_append, hclause (blank.addAll i ts).2, List.append_assoc]

end Page

/-- Tokens and lines on the two sides of the beginning of a clause do not depend on each other.  A
text is read part by part where its first part is complete, and its second one begins behind a gap
with a keyword token that neither joins nor compares.  Tokens are laid out part by part where the
second part begins with a clause. -/
theorem clauses_apart :
    (∀ (t gap u : Text) (first : Token), Nesting.start.after t = .start → gap ≠ [] →
        gap.IsBlank → u.tokens.head? = some first → first.kind ∉ [.str, .join, .compare] →
        (t ++ gap ++ u).tokens = t.tokens ++ u.tokens) ∧
      ∀ (i : Indent) (ts us : List Token) (first : Token), us.head? = some first →
        first.kind.opensClause = true →
        Page.lines i (ts ++ us) = Page.lines i ts ++ Page.lines i us := by
  constructor
  · intro t gap u first ht hne hgap hu hkind
    exact Text.tokens_append ht hne hgap hu (by simpa using hkind)
  · intro i ts us first hus hkind
    obtain ⟨us, rfl⟩ := List.head?_eq_some_iff.1 hus
    exact Page.lines_append hkind i ts us

/-- A clause behind a group and the first word of a phrase. -/
theorem clauses_apart_unfinished_phrase :
    Text.tokens "select (a) group\t\nfrom b".toList =
        Text.tokens "select (a) group".toList ++ Text.tokens "from b".toList ∧
      Page.lines .usual (Text.tokens "select (a) group".toList ++ Text.tokens "from b".toList) =
        Page.lines .usual (Text.tokens "select (a) group".toList) ++
          Page.lines .usual (Text.tokens "from b".toList) := by
  have hfirst : (Text.tokens "from b".toList).head? = some ⟨.from, "FROM".toList⟩ := by
    decide +kernel
  have hgap : Text.IsBlank ['\t', '\n'] :=
    List.forall_mem_cons.2 ⟨by decide, List.forall_mem_singleton.2 (by decide)⟩
  exact ⟨clauses_apart.1 "select (a) group".toList ['\t', '\n'] "from b".toList _
      (by decide +kernel) (by decide) hgap hfirst (by decide),
    clauses_apart.2 .usual _ _ _ hfirst rfl⟩

end SqlLayout
