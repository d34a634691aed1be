import BulkEdit.Proofs.Disk.Files
import BulkEdit.Proofs.Disk.Finding

/-!
# Exactly the eligible files are found

A guard finds every selected file below its root that it may touch, with the links to such files, and finds
nothing else. What it finds it lets through as long as the disk stays as it is: it is written, and read
unless it holds no text. The guard may have been made for an earlier state of the disk.
-/

namespace BulkEdit.Disk

theorem Tree.isFile_iff {tree : Tree} {path : Path} : tree.isFile path = true ↔
    ∃ location mode body, tree.resolve path = .ok location ∧
      tree.get? location = some (.file mode body) := by
  rw [isFile]
  cases tree.resolve path with
  | error fault => simp
  | ok location =>
    cases hnode : tree.get? location with
    | none => simp [hnode]
    | some node => cases node <;> simp [hnode, Node.isFile]

namespace Guard

variable {guard : Guard} {made tree : Tree} {root path : Path} {names : Location} {patterns : List Text}
  {selection : Selection}

/-- That the file or link at these names from the root of a guard is to be found: there are only
directories on the way, none with a forbidden name, a link leads to a file, the names are selected, and the
file is within what the guard allows. -/
structure Eligible (guard : Guard) (made tree : Tree) (selection : Selection) (names : Location) :
    Prop where
  folders : ∀ folder rest, names = folder ++ rest → rest ≠ [] →
    tree.get? (guard.root ++ folder) = some .directory
  permitted : ∀ name ∈ names.dropLast, name ∉ forbiddenNames
  regular : (∃ mode body, tree.get? (guard.root ++ names) = some (.file mode body)) ∨
    ∃ target location mode body, tree.get? (guard.root ++ names) = some (.link target) ∧
      tree.resolve (guard.pathOf names) = .ok location ∧
      tree.get? location = some (.file mode body)
  selected : selection.selects (Text.joinWith ['/'] names) = true
  within : ∃ location, tree.resolve (guard.pathOf names) = .ok location ∧ guard.Within made location

/-- That a path is let through to a file, which can be written, and read if it holds a text. -/
def LetsThrough (guard : Guard) (tree : Tree) (path : Path) : Prop :=
  ∃ location mode body, tree.resolve path = .ok location ∧
    tree.get? location = some (.file mode body) ∧
    (guard.access.read path tree = match body with
      | .text content => .ok content tree
      | .bytes _ => .error (.unreadable location.path .notText) tree) ∧
    ∀ text, guard.access.write path text tree =
      .ok () (tree.put location (.file mode (.text text)))

theorem check_pathOf_eq_ok_iff (hguard : ofRoot made root = .ok guard) {location : Location} :
    guard.check tree (guard.pathOf names) = .ok location ↔
      tree.resolve (guard.pathOf names) = .ok location ∧ guard.Within made location := by
  rw [check_eq_ok_iff hguard, pathOf, Location.join_path]

theorem isForbiddenName_eq_false_iff {name : Text} :
    isForbiddenName name = false ↔ name ∉ forbiddenNames := by
  rw [isForbiddenName, List.contains_eq_mem, decide_eq_false_iff_not]

theorem finds_iff_eligible (hwf : tree.WellFormed) (hguard : ofRoot made root = .ok guard) :
    guard.Finds tree selection names ↔ guard.Eligible made tree selection names := by
  constructor
  · rintro ⟨⟨⟨node, hnode, hne⟩, hpermitted⟩, hfile, hselected, location, hcheck⟩
    obtain ⟨found, mode, body, hresolve, hbody⟩ := Tree.isFile_iff.mp hfile
    refine ⟨?_, ?_, ?_, hselected, location, (check_pathOf_eq_ok_iff hguard).mp hcheck⟩
    · rintro folder rest rfl hrest
      rw [← List.append_assoc] at hnode
      exact hwf.directory_of_append hrest hnode
    · exact fun name hn => isForbiddenName_eq_false_iff.mp (hpermitted name hn)
    -- The path leads to a file, which need not be what stands there.
    · cases node with
      | directory => exact absurd rfl hne
      | file mode body => exact .inl ⟨mode, body, hnode⟩
      | link target => exact .inr ⟨target, found, mode, body, hnode, hresolve, hbody⟩
  · rintro ⟨-, hpermitted, hregular, hselected, location, hwithin⟩
    have hcheck := (check_pathOf_eq_ok_iff hguard).mpr hwithin
    have hpermitted' : ∀ name ∈ names.dropLast, isForbiddenName name = false :=
      fun name hn => isForbiddenName_eq_false_iff.mpr (hpermitted name hn)
    rcases hregular with ⟨mode, body, hfile⟩ | ⟨target, found, mode, body, hlink, hresolve, hbody⟩
    · have hresolve := Tree.resolve_path hwf (Tree.isReal_of_file hfile)
      exact ⟨⟨⟨_, hfile, fun he => nomatch he⟩, hpermitted'⟩,
        Tree.isFile_iff.mpr ⟨_, mode, body, hresolve, hfile⟩, hselected, location, hcheck⟩
    · exact ⟨⟨⟨_, hlink, fun he => nomatch he⟩, hpermitted'⟩,
        Tree.isFile_iff.mpr ⟨found, mode, body, hresolve, hbody⟩, hselected, location, hcheck⟩

theorem Finds.letsThrough (h : guard.Finds tree selection names) :
    guard.LetsThrough tree (guard.pathOf names) := by
  obtain ⟨found, mode, body, hfound, hfile⟩ := Tree.isFile_iff.mp h.isFile
  obtain ⟨location, hcheck⟩ := h.allowed
  have hresolve := (resolve_of_check hcheck).1
  rw [pathOf, Location.join_path, ← pathOf, hfound] at hresolve
  obtain rfl := Except.ok.inj hresolve
  refine ⟨found, mode, body, hfound, hfile, ?_, write_of_file hcheck hfile⟩
  rw [show guard.access.read _ tree = _ from read_eq guard _ tree, contents, hcheck]
  cases body <;> simp only [Tree.textAt, hfile] <;> rfl

/-- What is found, in order, is what is eligible, and the same guard lets all of it through. -/
theorem find_eligible (hwf : tree.WellFormed) (hguard : ofRoot made root = .ok guard)
    (hroot : tree.get? guard.root = some .directory)
    (hselection : Selection.ofPatterns patterns = .ok selection) :
    ∃ found, guard.access.find patterns tree = .ok found tree ∧ Path.Ordered found ∧
      (∀ path, path ∈ found ↔
        ∃ names, path = guard.pathOf names ∧ guard.Eligible made tree selection names) ∧
      ∀ path ∈ found, guard.LetsThrough tree path := by
  obtain ⟨found, hfind, hmem⟩ := exists_find hwf (Tree.isReal_of_directory hroot) hselection
  refine ⟨found, hfind, find_ordered hfind, fun path => ?_, fun path hpath => ?_⟩
  · simp only [hmem, finds_iff_eligible hwf hguard]
  · obtain ⟨names, rfl, hfinds⟩ := (hmem path).mp hpath
    exact hfinds.letsThrough

/-- A guard that was made before there was a `target`. It finds a link into it, and a file that holds no
text, but neither the file in `target` nor a link that leads out of the root. -/
theorem find_eligible_of_earlier_guard :
    let target : Text := "target".toList
    let made : Tree := ⟨[([['w']], .directory)]⟩
    let tree : Tree := ⟨[([['w']], .directory), ([['w'], target], .directory),
      ([['w'], ['o']], .link "../v".toList), ([['w'], ['l']], .link "target/x".toList),
      ([['w'], ['b']], .file 384 (.bytes [255])), ([['w'], target, ['x']], .file 420 (.text ['y'])),
      ([['v']], .file 420 (.text ['y']))]⟩
    let guard : Guard := ⟨[['w']], []⟩
    let found : List Path := [⟨"/w/b".toList⟩, ⟨"/w/l".toList⟩]
    tree.WellFormed ∧ ofRoot made ⟨['/', 'w']⟩ = .ok guard ∧
    tree.get? guard.root = some .directory ∧
    ∃ selection, Selection.ofPatterns [['*']] = .ok selection ∧
      guard.access.find [['*']] tree = .ok found tree ∧ Path.Ordered found ∧
      (∀ path ∈ found, ∃ names, path = guard.pathOf names ∧
        guard.Eligible made tree selection names) ∧
      (¬ guard.Eligible made tree selection [['o']]) ∧
      ∀ path ∈ found, guard.LetsThrough tree path := by
  intro target made tree guard found
  have hwf : tree.WellFormed := by decide +kernel
  have hguard : ofRoot made ⟨['/', 'w']⟩ = .ok guard := by decide +kernel
  have hroot : tree.get? guard.root = some .directory := by decide +kernel
  have hfound : guard.access.find [['*']] tree = .ok found tree := by rfl
  obtain ⟨selection, hselection⟩ : ∃ selection, Selection.ofPatterns [['*']] = .ok selection :=
    ⟨_, rfl⟩
  obtain ⟨paths, hfind, hordered, hmem, hlets⟩ := find_eligible hwf hguard hroot hselection
  obtain rfl : paths = found := (EStateM.Result.ok.inj (hfind.symm.trans hfound)).1
  refine ⟨hwf, hguard, hroot, selection, hselection, hfound, hordered,
    fun path hpath => (hmem path).mp hpath, fun houtside => ?_, hlets⟩
  have hnone := (hmem (guard.pathOf [['o']])).mpr ⟨_, rfl, houtside⟩
  exact absurd hnone (by decide)

end Guard

end BulkEdit.Disk
