import BulkEdit.Plan.Validity

/-!
# Rules of valid plans

A plan is valid if nothing is wrong with it, and then nothing is wrong with any of its rules.
-/

namespace BulkEdit

theorem Rule.manner_ne_wholeLine {rule : Rule} {earlier : List Text} (h : rule.issues earlier = [])
    (hscope : rule.scope = .wholeFile) : rule.manner ≠ .wholeLine := by
  intro hmanner
  have hissues : rule.mannerIssues = [.wholeLineInFile rule.id] := by
    rw [mannerIssues, if_pos hmanner, if_pos hscope]
  simp [issues, hissues] at h

namespace Plan

theorem exists_issues_of_mem {rules : List Rule} {earlier : List Text}
    (h : rulesIssues earlier rules = []) {rule : Rule} (hr : rule ∈ rules) :
    ∃ before, rule.issues before = [] := by
  induction rules generalizing earlier with
  | nil => cases hr
  | cons first rest ih =>
    obtain ⟨hfirst, hrest⟩ := List.append_eq_nil_iff.mp h
    rcases List.mem_cons.mp hr with rfl | hr
    · exact ⟨earlier, hfirst⟩
    · exact ih hrest hr

/-- No rule for files of a valid plan replaces whole lines. -/
theorem manner_ne_wholeLine_of_valid {plan : Plan} (hvalid : plan.issues = []) :
    ∀ rule ∈ plan.rules, rule.scope = .wholeFile → rule.manner ≠ .wholeLine := by
  intro rule hr
  obtain ⟨before, hissues⟩ := exists_issues_of_mem (List.append_eq_nil_iff.mp hvalid).2 hr
  exact Rule.manner_ne_wholeLine hissues

end Plan

end BulkEdit
