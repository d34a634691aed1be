import BulkEdit.Proofs.Text.Leftmost

/-!
# Replacing for good

An occurrence cannot reach into a replacement that has no character of the search text. As the gaps between
the occurrences of a text hold none, nothing is left to replace once all of them have been replaced by such
a text, even where the pieces around a replacement would make an occurrence by themselves.
-/

namespace BulkEdit.Text

variable {search replacement text : Text}

theorem not_has_nil (hsearch : search ≠ []) : ¬ has [] search = true := fun h =>
  hsearch (List.infix_nil.mp (has_iff_isInfix.mp h))

/-- What stands on both sides of a text without characters of `search` holds `search` on one side. -/
theorem has_append_of_apart (hsearch : search ≠ []) (hreplacement : replacement ≠ [])
    (hapart : ∀ c ∈ replacement, c ∉ search) (before after : Text) :
    has (before ++ replacement ++ after) search = (before.has search || has after search) := by
  induction replacement generalizing before with
  | nil => exact absurd rfl hreplacement
  | cons c rest ih =>
    obtain ⟨hc, hrest⟩ := List.forall_mem_cons.mp hapart
    rw [List.append_assoc, List.cons_append, has_append_cons hc]
    -- The last character of the replacement is what parts the two sides.
    by_cases hne : rest = []
    · rw [hne, List.nil_append]
    · have hbehind := ih hne hrest []
      rw [List.nil_append, Bool.eq_false_iff.mpr (not_has_nil hsearch), Bool.false_or] at hbehind
      rw [hbehind]

theorem OnlyAtEnd.not_has {gap : Text} (hsearch : search ≠ []) (h : OnlyAtEnd search gap) :
    ¬ gap.has search = true := by
  intro hs
  obtain ⟨before, after, hgap⟩ := has_iff_isInfix.mp hs
  have hnil := h before (after ++ search) (by rw [← hgap, List.append_assoc _ after])
  exact hsearch (List.append_eq_nil_iff.mp hnil).2

theorem Cut.not_has {gaps : List Text} (hsearch : search ≠ []) (h : Cut search text gaps) :
    ∀ gap ∈ gaps, ¬ gap.has search = true := by
  intro gap hgap
  rw [← List.dropLast_concat_getLast h.ne_nil, List.mem_append, List.mem_singleton] at hgap
  rcases hgap with hgap | rfl
  · exact (h.parted gap hgap).not_has hsearch
  · exact h.last _ (List.getLast?_eq_some_getLast h.ne_nil)

theorem not_has_joinWith {gaps : List Text} (hsearch : search ≠ []) (hreplacement : replacement ≠ [])
    (hapart : ∀ c ∈ replacement, c ∉ search) (h : ∀ gap ∈ gaps, ¬ gap.has search = true) :
    ¬ (joinWith replacement gaps).has search = true := by
  induction gaps with
  | nil => exact not_has_nil hsearch
  | cons gap rest ih =>
    obtain ⟨hgap, hrest⟩ := List.forall_mem_cons.mp h
    cases rest with
    | nil => exact hgap
    | cons next more =>
      rw [joinWith_cons_cons, has_append_of_apart hsearch hreplacement hapart, Bool.or_eq_true]
      exact not_or.mpr ⟨hgap, ih hrest⟩

theorem not_has_replaceAll (hsearch : search ≠ []) (hreplacement : replacement ≠ [])
    (hapart : ∀ c ∈ replacement, c ∉ search) (text : Text) :
    ¬ (replaceAll search replacement text).has search = true := by
  obtain ⟨gaps, hgaps⟩ := exists_cut hsearch text
  have hne : ¬ search.isEmpty = true := by simpa using hsearch
  rw [replaceAll, if_neg hne, hgaps.replaceFrom hsearch]
  exact not_has_joinWith hsearch hreplacement hapart (hgaps.not_has hsearch)

end BulkEdit.Text
