import BulkEdit.Proofs.Disk.Resolution

/-!
# What a guard lets through

A path is let through if it leads to a location at or below the root that is neither at nor below what was
forbidden when the guard was made. How the path is spelled and which links are on the way do not matter.
-/

namespace BulkEdit

theorem toOption_eq_some_iff {α ε : Type} {outcome : Except ε α} {answer : α} :
    outcome.toOption = some answer ↔ outcome = .ok answer := by
  cases outcome <;> simp [Except.toOption]

namespace Disk.Guard

variable {guard : Guard} {made tree : Tree} {root path : Path} {location folder : Location}

theorem isReal_root (hwf : tree.WellFormed) (hguard : ofRoot tree root = .ok guard) :
    tree.IsReal guard.root := by
  rw [ofRoot] at hguard
  split at hguard
  next => cases hguard
  next location hlocation =>
    cases hguard
    exact Tree.isReal_of_resolve hwf hlocation

theorem judge_eq_ok_iff {location found : Location} : guard.judge location = .ok found ↔
    found = location ∧ guard.root <+: location ∧ ∀ folder ∈ guard.forbidden, ¬ folder <+: location := by
  rw [judge]
  split
  next hroot =>
    split
    next folder hfolder =>
      have hmem := List.mem_of_find?_eq_some hfolder
      have hbelow := List.find?_some hfolder
      rw [List.isPrefixOf_iff_prefix] at hbelow
      exact ⟨fun h => (nomatch h), fun h => absurd hbelow (h.2.2 folder hmem)⟩
    next hnone =>
      rw [List.find?_eq_none] at hnone
      simp only [List.isPrefixOf_iff_prefix] at hroot hnone
      constructor
      · intro h
        cases h
        exact ⟨rfl, hroot, hnone⟩
      · rintro ⟨rfl, -, -⟩
        rfl
  next hroot =>
    rw [List.isPrefixOf_iff_prefix] at hroot
    exact ⟨fun h => (nomatch h), fun h => absurd h.2.1 hroot⟩

/-- What is let through is where the path leads. -/
theorem resolve_of_check {path : Path} {location : Location}
    (h : guard.check tree path = .ok location) :
    tree.resolve (guard.rootPath.join path) = .ok location ∧ guard.judge location = .ok location := by
  rw [check] at h
  cases hresolve : tree.resolve (guard.rootPath.join path) with
  | error fault =>
    rw [hresolve] at h
    cases h
  | ok found =>
    rw [hresolve] at h
    obtain rfl := (judge_eq_ok_iff.mp h).1
    exact ⟨rfl, h⟩

/-- The path of a file or a directory is judged by its own location. -/
theorem check_path (hwf : tree.WellFormed) {location : Location} (h : tree.IsReal location) :
    guard.check tree location.path = guard.judge location := by
  rw [check, Location.join_path, Tree.resolve_path hwf h]

/-- That a location is at or below the root of a guard, and neither at nor below what the forbidden names
right below the root led to in the tree `made` that the guard was made for. -/
structure Within (guard : Guard) (made : Tree) (location : Location) : Prop where
  below_root : guard.root <+: location
  not_forbidden : ∀ name ∈ forbiddenNames, ∀ folder,
    made.resolve (Location.path (guard.root ++ [name])) = .ok folder → ¬ folder <+: location

theorem mem_forbidden_iff (hguard : ofRoot made root = .ok guard) :
    folder ∈ guard.forbidden ↔ ∃ name ∈ forbiddenNames,
      made.resolve (Location.path (guard.root ++ [name])) = .ok folder := by
  rw [ofRoot] at hguard
  split at hguard
  next => cases hguard
  next start hstart =>
    cases hguard
    simp only [forbiddenBelow, List.mem_filterMap, toOption_eq_some_iff]

theorem judge_eq_ok_iff_within (hguard : ofRoot made root = .ok guard) :
    guard.judge location = .ok location ↔ guard.Within made location := by
  rw [judge_eq_ok_iff, and_iff_right rfl]
  constructor
  · rintro ⟨hroot, hforbidden⟩
    refine ⟨hroot, fun name hname folder hfolder => ?_⟩
    exact hforbidden folder ((mem_forbidden_iff hguard).mpr ⟨name, hname, hfolder⟩)
  · rintro ⟨hroot, hforbidden⟩
    refine ⟨hroot, fun folder hmem => ?_⟩
    obtain ⟨name, hname, hfolder⟩ := (mem_forbidden_iff hguard).mp hmem
    exact hforbidden name hname folder hfolder

/-- A path is let through exactly if it leads to where it may lead. -/
theorem check_eq_ok_iff (hguard : ofRoot made root = .ok guard) :
    guard.check tree path = .ok location ↔
      tree.resolve (guard.rootPath.join path) = .ok location ∧ guard.Within made location := by
  constructor
  · intro h
    obtain ⟨hresolve, hjudge⟩ := resolve_of_check h
    exact ⟨hresolve, (judge_eq_ok_iff_within hguard).mp hjudge⟩
  · rintro ⟨hresolve, hwithin⟩
    rw [check, hresolve]
    exact (judge_eq_ok_iff_within hguard).mpr hwithin

theorem check_of_outside (hresolve : tree.resolve (guard.rootPath.join path) = .ok location)
    (houtside : ¬ guard.root <+: location) :
    guard.check tree path = .error (.outsideRoot location.path guard.rootPath) := by
  rw [check, hresolve]
  exact if_neg (mt List.isPrefixOf_iff_prefix.mp houtside)

end Disk.Guard

end BulkEdit
