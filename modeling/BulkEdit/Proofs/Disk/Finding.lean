import BulkEdit.Disk.Access
import BulkEdit.Proofs.Disk.Guard
import BulkEdit.Proofs.Path.Distinct
import BulkEdit.Session.Basic

/-!
# Files found on disk

A walk meets what is not a directory and lies behind no directory with a forbidden name. What a guard
finds is met by a walk from its root, is selected by its names from there, leads to a file and is let
through. A session is opened on all of it.
-/

namespace BulkEdit.Disk

namespace Location

variable {location other : Location}

theorem components_path (h : ∀ name ∈ location, IsName name) :
    location.path.components = .root :: location.map .name := by
  have hname : ∀ name ∈ location, Path.componentOf? name = some (.name name) := by
    intro name hn
    obtain ⟨hnil, hhere, hup, -, -, -⟩ := h name hn
    rw [Path.componentOf?, if_neg (by simp [hnil, hhere]), if_neg hup]
  have hpieces : location.path.spelling.pieces '/' =
      [] :: (Text.joinWith ['/'] location).pieces '/' := by
    rw [path, Text.pieces, if_pos rfl]
  rw [Path.components, hpieces, List.filterMap_cons]
  by_cases hne : location = []
  · rw [hne]
    rfl
  · rw [Text.pieces_joinWith hne fun name hn => (h name hn).slash_not_mem,
      List.filterMap_congr hname]
    simp [Path.leadingComponents, isAbsolute_path, Path.componentOf?]

/-- Each location has a path of its own. -/
theorem eq_of_same (h : ∀ name ∈ location, IsName name) (hother : ∀ name ∈ other, IsName name)
    (hsame : location.path.Same other.path) : location = other := by
  rw [Path.Same, components_path h, components_path hother, List.cons.injEq] at hsame
  exact (List.map_inj_right fun _ _ he => Component.name.inj he).mp hsame.2

end Location

namespace Tree

variable {tree : Tree} {folder names location : Location} {name : Text} {node : Node} {depth : Nat}

theorem mem_names_of_get? (h : tree.get? (folder ++ [name]) = some node) :
    name ∈ tree.names folder := by
  obtain ⟨entry, he, hlocation⟩ := exists_entry_of_get? h (by simp)
  refine List.mem_filterMap.mpr ⟨entry, he, ?_⟩
  rw [Location.below?_eq_some_iff.mpr hlocation]

theorem length_le_of_mem {entries : List (Location × Node)} {entry : Location × Node}
    (h : entry ∈ entries) : entry.1.length ≤ (Tree.mk entries).height := by
  induction entries with
  | nil => cases h
  | cons first rest ih =>
    rcases List.mem_cons.mp h with rfl | h
    · exact Nat.le_max_left _ _
    · exact Nat.le_trans (ih h) (Nat.le_max_right _ _)

theorem length_le_height (h : tree.get? location = some node) : location.length ≤ tree.height := by
  by_cases hne : location = []
  · rw [hne]
    exact Nat.zero_le _
  · obtain ⟨entry, he, rfl⟩ := exists_entry_of_get? h hne
    exact length_le_of_mem he

/-- What a walk from a folder meets, if it goes deep enough. -/
structure Meets (tree : Tree) (folder names : Location) : Prop where
  node : ∃ node, tree.get? (folder ++ names) = some node ∧ node ≠ .directory
  permitted : ∀ name ∈ names.dropLast, isForbiddenName name = false

theorem Meets.ne_nil (h : tree.Meets folder names) (hfolder : tree.get? folder = some .directory) :
    names ≠ [] := by
  rintro rfl
  obtain ⟨node, hnode, hne⟩ := h.node
  rw [List.append_nil, hfolder] at hnode
  exact hne (Option.some.inj hnode).symm

theorem mem_walk_succ : names ∈ tree.walk (depth + 1) folder ↔
    (∃ name node, names = [name] ∧ tree.get? (folder ++ [name]) = some node ∧ node ≠ .directory) ∨
    ∃ name rest, names = name :: rest ∧ tree.get? (folder ++ [name]) = some .directory ∧
      isForbiddenName name = false ∧ rest ∈ tree.walk depth (folder ++ [name]) := by
  rw [walk, List.mem_flatMap]
  constructor
  · rintro ⟨name, -, h⟩
    split at h
    next => cases h
    next hdirectory =>
      split at h
      next => cases h
      next hpermitted =>
        obtain ⟨rest, hrest, rfl⟩ := List.mem_map.mp h
        exact .inr ⟨name, rest, rfl, hdirectory, Bool.not_eq_true _ ▸ hpermitted, hrest⟩
    next node hne hnode =>
      exact .inl ⟨name, node, List.mem_singleton.mp h, hnode, fun he => hne he⟩
  · rintro (⟨name, node, rfl, hnode, hne⟩ | ⟨name, rest, rfl, hdirectory, hpermitted, hrest⟩)
    · refine ⟨name, mem_names_of_get? hnode, ?_⟩
      rw [hnode]
      cases node with
      | directory => exact absurd rfl hne
      | file mode body => exact List.mem_singleton_self _
      | link target => exact List.mem_singleton_self _
    · refine ⟨name, mem_names_of_get? hdirectory, ?_⟩
      rw [hdirectory]
      dsimp only
      rw [hpermitted]
      exact List.mem_map_of_mem hrest

theorem mem_walk_iff (hwf : tree.WellFormed) (hfolder : tree.get? folder = some .directory) :
    names ∈ tree.walk depth folder ↔ names.length ≤ depth ∧ tree.Meets folder names := by
  induction depth generalizing folder names with
  | zero =>
    rw [Nat.le_zero, List.length_eq_zero_iff]
    exact ⟨fun h => (List.not_mem_nil h).elim, fun h => absurd h.1 (h.2.ne_nil hfolder)⟩
  | succ depth ih =>
    rw [mem_walk_succ]
    constructor
    · rintro (⟨name, node, rfl, hnode, hne⟩ | ⟨name, rest, rfl, hdirectory, hpermitted, hrest⟩)
      · exact ⟨Nat.le_add_left 1 depth, ⟨node, hnode, hne⟩, fun _ h => nomatch h⟩
      · obtain ⟨hlength, hmeets⟩ := (ih hdirectory).mp hrest
        refine ⟨Nat.succ_le_succ hlength, ?_, ?_⟩
        · rw [List.append_cons]
          exact hmeets.node
        · rw [List.dropLast_cons_of_ne_nil (hmeets.ne_nil hdirectory)]
          exact List.forall_mem_cons.mpr ⟨hpermitted, hmeets.permitted⟩
    · rintro ⟨hlength, hmeets⟩
      obtain ⟨node, hnode, hne⟩ := hmeets.node
      -- The last name stands for itself; each name before it has to be one of a directory.
      match names, hmeets.ne_nil hfolder with
      | [name], _ => exact .inl ⟨name, node, rfl, hnode, hne⟩
      | name :: next :: rest, _ =>
        obtain ⟨hpermitted, hrest⟩ := List.forall_mem_cons.mp hmeets.permitted
        rw [List.append_cons] at hnode
        have hdirectory := hwf.directory_of_append (List.cons_ne_nil _ _) hnode
        exact .inr ⟨name, next :: rest, rfl, hdirectory, hpermitted,
          (ih hdirectory).mpr ⟨Nat.le_of_succ_le_succ hlength, ⟨node, hnode, hne⟩, hrest⟩⟩

end Tree

namespace Guard

variable {guard : Guard} {tree : Tree} {names : Location} {patterns : List Text}

theorem exists_candidates (hwf : tree.WellFormed) (hreal : tree.IsReal guard.root) :
    ∃ candidates, guard.candidates tree = .ok candidates ∧
      ∀ names, names ∈ candidates ↔ tree.Meets guard.root names := by
  have hstart : tree.resolve guard.rootPath = .ok guard.root := Tree.resolve_path hwf hreal
  obtain ⟨node, hnode, hlink⟩ := hreal
  simp only [candidates, hstart, bind, Except.bind, hnode]
  by_cases hdirectory : node = .directory
  · subst hdirectory
    refine ⟨_, rfl, fun names => ?_⟩
    rw [Tree.mem_walk_iff hwf hnode, and_iff_right_of_imp]
    intro hmeets
    obtain ⟨last, hlast, -⟩ := hmeets.node
    have hlength := Tree.length_le_height hlast
    rw [List.length_append] at hlength
    exact Nat.le_trans (Nat.le_add_left _ _) hlength
  · refine ⟨[[]], ?_, fun names => ?_⟩
    · cases node with
      | directory => exact absurd rfl hdirectory
      | file mode body => rfl
      | link target => rfl
    · rw [List.mem_singleton]
      constructor
      · rintro rfl
        exact ⟨⟨node, (List.append_nil _).symm ▸ hnode, hdirectory⟩, fun _ h => nomatch h⟩
      · intro hmeets
        obtain ⟨last, hlast, -⟩ := hmeets.node
        -- Nothing is below what is no directory.
        by_contra hne
        rw [hwf.directory_of_append hne hlast] at hnode
        exact hdirectory (Option.some.inj hnode).symm

/-- What makes a guard find the path of what stands at these names from its root. -/
structure Finds (guard : Guard) (tree : Tree) (selection : Selection) (names : Location) : Prop where
  meets : tree.Meets guard.root names
  isFile : tree.isFile (guard.pathOf names) = true
  selected : selection.selects (Text.joinWith ['/'] names) = true
  allowed : ∃ location, guard.check tree (guard.pathOf names) = .ok location

theorem finds_iff {selection : Selection} : guard.Finds tree selection names ↔
    tree.Meets guard.root names ∧ guard.isEligible tree selection names = true := by
  rw [isEligible, Bool.and_eq_true, Bool.and_eq_true]
  constructor
  · rintro ⟨hmeets, hfile, hselected, location, hcheck⟩
    exact ⟨hmeets, ⟨hfile, hselected⟩, by rw [hcheck]; rfl⟩
  · rintro ⟨hmeets, ⟨hfile, hselected⟩, hallowed⟩
    refine ⟨hmeets, hfile, hselected, ?_⟩
    cases hcheck : guard.check tree (guard.pathOf names) with
    | error rejection =>
      rw [hcheck] at hallowed
      cases hallowed
    | ok location => exact ⟨location, rfl⟩

/-- What is found leads to its own location if it is a file, and elsewhere only if it is a link. -/
theorem Finds.leads_to (hwf : tree.WellFormed) (h : guard.Finds tree selection names) {location : Location}
    (hcheck : guard.check tree (guard.pathOf names) = .ok location) :
    location = guard.root ++ names ∨ ∃ target,
      tree.get? (guard.root ++ names) = some (.link target) ∧
      tree.resolve (guard.pathOf names) = .ok location := by
  obtain ⟨node, hnode, hne⟩ := h.meets.node
  cases node with
  | directory => exact absurd rfl hne
  | file mode body =>
    rw [pathOf, check_path hwf (Tree.isReal_of_file hnode)] at hcheck
    exact .inl (judge_eq_ok_iff.mp hcheck).1
  | link target =>
    have hresolve := (resolve_of_check hcheck).1
    rw [pathOf, Location.join_path] at hresolve
    exact .inr ⟨target, hnode, hresolve⟩

theorem find_ordered {later : Tree} {found : List Path}
    (h : guard.find patterns tree = .ok found later) : Path.Ordered found := by
  rw [find] at h
  split at h
  · cases h
  · split at h
    · cases h
    · cases h
      exact Path.ordered_inOrder _

/-- No two of the paths that a guard finds are spellings of one path. -/
theorem names_eq_of_same (hwf : tree.WellFormed) {other : Location}
    (h : tree.Meets guard.root names) (hother : tree.Meets guard.root other)
    (hsame : (guard.pathOf names).Same (guard.pathOf other)) : names = other := by
  obtain ⟨node, hnode, -⟩ := h.node
  obtain ⟨last, hlast, -⟩ := hother.node
  have hlocation := Location.eq_of_same (fun _ hn => hwf.isName_of_mem hnode hn)
    (fun _ hn => hwf.isName_of_mem hlast hn) hsame
  exact List.append_cancel_left hlocation

theorem exists_find (hwf : tree.WellFormed) (hreal : tree.IsReal guard.root) {selection : Selection}
    (hselection : Selection.ofPatterns patterns = .ok selection) :
    ∃ found, guard.find patterns tree = .ok found tree ∧
      ∀ path, path ∈ found ↔ ∃ names, path = guard.pathOf names ∧ guard.Finds tree selection names := by
  obtain ⟨candidates, hcandidates, hmeets⟩ := exists_candidates hwf hreal
  have hmem : ∀ path, path ∈ (candidates.filter (guard.isEligible tree selection)).map guard.pathOf ↔
      ∃ names, path = guard.pathOf names ∧ guard.Finds tree selection names := by
    intro path
    rw [List.mem_map]
    refine exists_congr fun names => ?_
    rw [List.mem_filter, hmeets, ← finds_iff, and_comm, eq_comm]
  refine ⟨_, by rw [find, hselection, hcandidates], fun path => ?_⟩
  rw [Path.mem_inOrder_iff, hmem]
  intro p hp q hq hs
  obtain ⟨names, rfl, hfinds⟩ := (hmem p).mp hp
  obtain ⟨other, rfl, hothers⟩ := (hmem q).mp hq
  rw [names_eq_of_same hwf hfinds.meets hothers.meets hs]

theorem find_ok (hwf : tree.WellFormed) (hreal : tree.IsReal guard.root) {later : Tree}
    {found : List Path} (h : guard.find patterns tree = .ok found later) :
    later = tree ∧ ∃ selection, Selection.ofPatterns patterns = .ok selection ∧
      ∀ path ∈ found, ∃ names, path = guard.pathOf names ∧ guard.Finds tree selection names := by
  cases hselection : Selection.ofPatterns patterns with
  | error reason =>
    rw [find, hselection] at h
    cases h
  | ok selection =>
    obtain ⟨all, hall, hmem⟩ := exists_find hwf hreal hselection
    rw [hall] at h
    cases h
    exact ⟨rfl, selection, rfl, fun path hpath => (hmem path).mp hpath⟩

/-- A session is opened on all that is found. -/
theorem find_of_ofPatterns {opened : Tree} {session : Session}
    (h : Session.ofPatterns guard.access patterns tree = .ok session opened) :
    guard.find patterns tree = .ok session.files opened ∧ session.staging = .empty := by
  simp only [Session.ofPatterns, bind, EStateM.bind] at h
  cases hfind : guard.access.find patterns tree with
  | error failure later =>
    rw [hfind] at h
    cases h
  | ok found later =>
    rw [hfind] at h
    dsimp only at h
    rw [Path.mergeAdjacent_of_distinct (find_ordered hfind).distinct] at h
    split at h
    · cases h
    · cases h
      exact ⟨hfind, rfl⟩

end Guard

end BulkEdit.Disk
