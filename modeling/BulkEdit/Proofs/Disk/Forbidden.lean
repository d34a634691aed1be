import BulkEdit.Proofs.Disk.Files
import BulkEdit.Proofs.Disk.Finding

/-!
# Forbidden directories

A directory with a forbidden name right below the root is closed to every path that leads into it. The
walk stays out of such directories at any depth, but the guard knows only those right below the root, and
of these only the ones that stood when it was made.
-/

namespace BulkEdit.Disk.Guard

variable {guard : Guard} {made tree : Tree} {root path : Path} {location folder : Location}

/-- A guard knows the forbidden directories right below its root from the tree that it was made for. -/
theorem not_within_of_directory (hwf : made.WellFormed) {name : Text} {rest : Location}
    (hname : isForbiddenName name = true)
    (hdirectory : made.get? (guard.root ++ [name]) = some .directory) :
    ¬ guard.Within made (guard.root ++ name :: rest) := by
  intro hwithin
  refine hwithin.not_forbidden name (List.contains_iff_mem.mp hname) _
    (Tree.resolve_path hwf (Tree.isReal_of_directory hdirectory)) ⟨rest, ?_⟩
  exact (List.append_cons _ _ _).symm

/-- Below the root a guard keeps out of nothing but what was forbidden when it was made. -/
theorem exists_forbidden (hguard : ofRoot made root = .ok guard) (hroot : guard.root <+: location)
    (houtside : ¬ guard.Within made location) : ∃ folder ∈ guard.forbidden, folder <+: location := by
  by_contra hnone
  refine houtside ⟨hroot, fun name hname folder hfolder hbelow => hnone ⟨folder, ?_, hbelow⟩⟩
  exact (mem_forbidden_iff hguard).mpr ⟨name, hname, hfolder⟩

theorem check_of_forbidden (hresolve : tree.resolve (guard.rootPath.join path) = .ok location)
    (hroot : guard.root <+: location) (hmem : folder ∈ guard.forbidden) (hbelow : folder <+: location) :
    ∃ folder ∈ guard.forbidden,
      guard.check tree path = .error (.forbidden location.path folder.path) := by
  rw [check, hresolve]
  dsimp only
  rw [judge, if_pos (List.isPrefixOf_iff_prefix.mpr hroot)]
  cases hfind : guard.forbidden.find? (·.isPrefixOf location) with
  | some first => exact ⟨first, List.mem_of_find?_eq_some hfind, rfl⟩
  | none =>
    have hnone := List.find?_eq_none.mp hfind folder hmem
    exact absurd (List.isPrefixOf_iff_prefix.mpr hbelow) hnone

theorem read_of_forbidden (h : guard.check tree path = .error (.forbidden location.path folder.path)) :
    guard.read path tree = .error (.rejected (.forbidden location.path folder.path)) tree :=
  read_of_rejected h fun _ _ he => nomatch he

theorem write_of_forbidden (h : guard.check tree path = .error (.forbidden location.path folder.path))
    (text : Text) :
    guard.write path text tree = .error (.rejected (.forbidden location.path folder.path)) tree :=
  write_of_rejected h (fun _ _ he => nomatch he) text

/-- What is found has no directory with a forbidden name among its own names. A directory with such a name
that stood right below the root when the guard was made is closed also to the paths that lead into it by links:
none is found, read or written. The guard does not know of one that was made later. -/
theorem forbidden_directory_closed (hmade : made.WellFormed) (hwf : tree.WellFormed)
    (hguard : ofRoot made root = .ok guard) (hreal : tree.IsReal guard.root) :
    (∀ patterns found later, guard.access.find patterns tree = .ok found later →
      ∀ file ∈ found, ∃ names, file = guard.pathOf names ∧
        ∀ folder ∈ names.dropLast, isForbiddenName folder = false) ∧
    (∀ name rest, isForbiddenName name = true →
      made.get? (guard.root ++ [name]) = some .directory →
      ¬ guard.Within made (guard.root ++ name :: rest)) ∧
    ∀ path location, tree.resolve (guard.rootPath.join path) = .ok location →
      guard.root <+: location → ¬ guard.Within made location →
      (∀ patterns found later, guard.access.find patterns tree = .ok found later → path ∉ found) ∧
      ∃ folder ∈ guard.forbidden,
        let failure := .rejected (.forbidden location.path folder.path)
        guard.access.read path tree = .error failure tree ∧
        ∀ text, guard.access.write path text tree = .error failure tree := by
  refine ⟨fun patterns found later hfind file hfile => ?_,
    fun name rest => not_within_of_directory hmade, fun path location hleads hroot houtside => ?_⟩
  · obtain ⟨-, selection, -, hfound⟩ := find_ok hwf hreal hfind
    obtain ⟨names, rfl, hfinds⟩ := hfound file hfile
    exact ⟨names, rfl, hfinds.meets.permitted⟩
  · obtain ⟨closed, hclosed, hbelow⟩ := exists_forbidden hguard hroot houtside
    obtain ⟨folder, hfolder, hcheck⟩ := check_of_forbidden hleads hroot hclosed hbelow
    refine ⟨fun patterns found later hfind hpath => ?_, folder, hfolder, read_of_forbidden hcheck,
      write_of_forbidden hcheck⟩
    obtain ⟨-, selection, -, hfound⟩ := find_ok hwf hreal hfind
    obtain ⟨names, rfl, hfinds⟩ := hfound path hpath
    obtain ⟨other, hallowed⟩ := hfinds.allowed
    rw [hcheck] at hallowed
    cases hallowed

/-- A link into a forbidden directory right below the root. The link and the file that it leads to were made
after the guard. -/
theorem forbidden_directory_closed_to_link :
    let git : Text := ".git".toList
    let made : Tree := ⟨[([['w']], .directory), ([['w'], git], .directory)]⟩
    let tree : Tree := ⟨[([['w']], .directory), ([['w'], git], .directory),
      ([['w'], git, ['f']], .file 420 (.text ['x'])), ([['w'], ['l']], .link ".git/f".toList)]⟩
    let guard : Guard := ⟨[['w']], [[['w'], git]]⟩
    let failure := .rejected (.forbidden ⟨"/w/.git/f".toList⟩ ⟨"/w/.git".toList⟩)
    tree.WellFormed ∧ ofRoot made ⟨"/w".toList⟩ = .ok guard ∧ isForbiddenName git = true ∧
    tree.resolve (guard.rootPath.join ⟨['l']⟩) = .ok [['w'], git, ['f']] ∧
    guard.access.read ⟨['l']⟩ tree = .error failure tree ∧
    guard.access.write ⟨['l']⟩ ['y'] tree = .error failure tree := by
  intro git made tree guard failure
  have hwf : tree.WellFormed := by decide +kernel
  have hguard : ofRoot made ⟨"/w".toList⟩ = .ok guard := by rfl
  have hname : isForbiddenName git = true := by decide
  have hleads : tree.resolve (guard.rootPath.join ⟨['l']⟩) = .ok [['w'], git, ['f']] := by rfl
  obtain ⟨-, houtside, hclosed⟩ := forbidden_directory_closed (by decide +kernel) hwf hguard
    (Tree.isReal_of_directory rfl)
  obtain ⟨-, folder, hfolder, hread, hwrite⟩ :=
    hclosed _ _ hleads ⟨_, rfl⟩ (houtside git [['f']] hname rfl)
  obtain rfl := List.mem_singleton.mp hfolder
  exact ⟨hwf, hguard, hname, hleads, hread, hwrite ['y']⟩

/-- A forbidden directory further down. A link into it is found, and its file is read and written. -/
theorem nested_forbidden_directory_open :
    let git : Text := ".git".toList
    let tree : Tree := ⟨[([['w']], .directory), ([['w'], ['s']], .directory),
      ([['w'], ['s'], git], .directory), ([['w'], ['s'], git, ['f']], .file 420 (.text ['x'])),
      ([['w'], ['l']], .link "s/.git/f".toList)]⟩
    let guard : Guard := ⟨[['w']], []⟩
    let path : Path := ⟨"s/.git/f".toList⟩
    tree.WellFormed ∧ ofRoot tree ⟨"/w".toList⟩ = .ok guard ∧ isForbiddenName git = true ∧
    tree.resolve (guard.rootPath.join path) = .ok [['w'], ['s'], git, ['f']] ∧
    tree.resolve ⟨"/w/l".toList⟩ = .ok [['w'], ['s'], git, ['f']] ∧
    guard.access.find [['*']] tree = .ok [⟨"/w/l".toList⟩] tree ∧
    guard.access.read path tree = .ok ['x'] tree ∧
    guard.access.write path ['y'] tree =
      .ok () (tree.put [['w'], ['s'], git, ['f']] (.file 420 (.text ['y']))) := by
  intro git tree guard path
  have hcheck : guard.check tree path = .ok [['w'], ['s'], git, ['f']] := by rfl
  exact ⟨by decide +kernel, by rfl, by decide, by rfl, by rfl, by rfl, by rfl,
    write_of_file hcheck rfl ['y']⟩

end BulkEdit.Disk.Guard
