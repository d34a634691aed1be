import BulkEdit.Disk.Guard
import BulkEdit.Proofs.Disk.WellFormed
import BulkEdit.Proofs.Text.Lines

/-!
# Where paths lead

Where a path leads depends on what stands where and on the targets of links, and not on what files hold.
In a well-formed tree a path leads to a file or a directory if it leads anywhere, and every file and every
directory is where its own path leads.
-/

namespace BulkEdit.Disk

/-- A node less what it holds, if it is a file. -/
def Node.emptied : Node → Node
  | .file mode _ => .file mode (.text [])
  | node => node

namespace Tree

/-- What stands at a location, apart from what files hold. -/
def shape (tree : Tree) (location : Location) : Option Node :=
  (tree.get? location).map Node.emptied

variable {tree other : Tree} {folder location : Location} {node : Node}
  {follow : Location → List Text → Except StoreFault Location}

theorem get?_of_shape (h : tree.shape location = other.shape location) :
    tree.get? location = other.get? location ∨ ∃ mode body later,
      tree.get? location = some (.file mode body) ∧
      other.get? location = some (.file mode later) := by
  rw [shape, shape] at h
  cases htree : tree.get? location with
  | none =>
    rw [htree] at h
    exact .inl (Option.map_eq_none_iff.mp h.symm).symm
  | some node =>
    rw [htree] at h
    obtain ⟨node', hother, he⟩ := Option.map_eq_some_iff.mp h.symm
    rw [hother]
    cases node <;> cases node' <;> simp_all [Node.emptied]

theorem get?_ne_directory_of_shape (h : tree.shape location = other.shape location) :
    tree.get? location ≠ some .directory ↔ other.get? location ≠ some .directory := by
  rcases get?_of_shape h with he | ⟨mode, body, later, ht, ho⟩
  · rw [he]
  · simp [ht, ho]

theorem descend_of_shape (h : tree.shape = other.shape) (location : Location) (pieces : List Text) :
    tree.descend follow location pieces = other.descend follow location pieces := by
  induction pieces generalizing location with
  | nil => rfl
  | cons piece rest ih =>
    simp only [descend, get?_ne_directory_of_shape (congrFun h location), ih]
    rcases get?_of_shape (congrFun h (location ++ [piece])) with he | ⟨mode, body, later, ht, ho⟩
    · rw [he]
    · simp only [ht, ho]

theorem resolvePieces_of_shape (h : tree.shape = other.shape) (links : Nat) :
    tree.resolvePieces links = other.resolvePieces links := by
  induction links with
  | zero => exact funext fun location => funext fun pieces => descend_of_shape h location pieces
  | succ links ih =>
    funext location pieces
    rw [resolvePieces, resolvePieces, ih]
    exact descend_of_shape h location pieces

theorem resolveFrom_of_shape (h : tree.shape = other.shape) (folder : Location) (path : Path) :
    tree.resolveFrom folder path = other.resolveFrom folder path := by
  rw [resolveFrom, resolveFrom, resolvePieces_of_shape h]

theorem resolve_of_shape (h : tree.shape = other.shape) (path : Path) :
    tree.resolve path = other.resolve path := resolveFrom_of_shape h [] path

theorem isReal_of_descend (hwf : tree.WellFormed)
    (hfollow : ∀ {folder pieces location}, tree.get? folder = some .directory →
      follow folder pieces = .ok location → tree.IsReal location)
    (hreal : tree.IsReal folder) {pieces : List Text}
    (h : tree.descend follow folder pieces = .ok location) : tree.IsReal location := by
  induction pieces generalizing folder with
  | nil =>
    cases h
    exact hreal
  | cons piece rest ih =>
    rw [descend] at h
    split at h
    next => cases h
    next hdirectory =>
      rw [Decidable.not_not] at hdirectory
      split at h
      · exact ih hreal h
      · split at h
        · exact ih (isReal_of_directory (hwf.folder_of_get? hdirectory)) h
        · split at h
          · cases h
          · split at h
            next => cases h
            next => exact hfollow hdirectory h
            next node hlink hnode => exact ih ⟨node, hnode, hlink⟩ h

theorem isReal_of_resolvePieces (hwf : tree.WellFormed) {links : Nat} {pieces : List Text}
    (hreal : tree.IsReal folder) (h : tree.resolvePieces links folder pieces = .ok location) :
    tree.IsReal location := by
  induction links generalizing folder pieces location with
  | zero => exact isReal_of_descend hwf (fun _ hnone => by cases hnone) hreal h
  | succ links ih =>
    refine isReal_of_descend hwf (fun {folder pieces location} hdirectory h => ?_) hreal h
    -- The target of a link is followed from the top or from the directory that the link is in.
    refine ih ?_ h
    split
    · exact isReal_of_directory (get?_nil tree)
    · exact isReal_of_directory hdirectory

/-- A path ends at a file or a directory, as a link at its end is followed too. -/
theorem isReal_of_resolve (hwf : tree.WellFormed) {path : Path}
    (h : tree.resolve path = .ok location) : tree.IsReal location := by
  rw [resolve, resolveFrom, ite_self] at h
  split at h
  · cases h
  · split at h
    · cases h
    · exact isReal_of_resolvePieces hwf (isReal_of_directory (get?_nil tree)) h

/-- Names that lead to a file or a directory are followed one by one. -/
theorem descend_names (hwf : tree.WellFormed) {names : Location}
    (h : tree.IsReal (folder ++ names)) : tree.descend follow folder names = .ok (folder ++ names) := by
  induction names generalizing folder with
  | nil => rw [descend, List.append_nil]
  | cons name rest ih =>
    obtain ⟨node, hnode, hend⟩ := h
    have hdirectory := hwf.directory_of_append (List.cons_ne_nil name rest) hnode
    have hname := hwf.isName_of_mem hnode (List.mem_append_right folder List.mem_cons_self)
    rw [List.append_cons] at hnode ⊢
    have hreal : tree.IsReal ((folder ++ [name]) ++ rest) := ⟨node, hnode, hend⟩
    obtain ⟨next, hnext, hlink⟩ := hwf.isReal_of_append hreal
    rw [descend, if_neg (not_not_intro hdirectory), if_neg (by simp [hname.ne_nil, hname.ne_here]),
      if_neg hname.ne_up, if_neg (Nat.not_lt.mpr hname.length_le), hnext]
    cases next with
    | directory => exact ih hreal
    | file mode body => exact ih hreal
    | link target => exact absurd rfl (hlink target)

end Tree

theorem Location.isAbsolute_path (location : Location) : location.path.isAbsolute = true := rfl

theorem Location.join_path (base : Path) (location : Location) :
    base.join location.path = location.path := if_pos location.isAbsolute_path

namespace Tree

variable {tree : Tree} {location : Location}

theorem descend_pieces_path (hwf : tree.WellFormed)
    {follow : Location → List Text → Except StoreFault Location} (h : tree.IsReal location) :
    tree.descend follow [] (location.path.spelling.pieces '/') = .ok location := by
  have hskip : ∀ pieces, tree.descend follow [] ([] :: pieces) = tree.descend follow [] pieces := by
    intro pieces
    rw [descend, if_neg (not_not_intro (get?_nil tree)), if_pos (Or.inl rfl)]
  rw [Location.path, Text.pieces, if_pos rfl, hskip]
  by_cases hne : location = []
  · rw [hne, Text.joinWith, Text.pieces, hskip, descend]
  · obtain ⟨node, hnode, hend⟩ := h
    rw [Text.pieces_joinWith hne fun name hn => (hwf.isName_of_mem hnode hn).slash_not_mem]
    exact descend_names hwf ⟨node, hnode, hend⟩

/-- The path of a file or a directory leads to it. -/
theorem resolve_path (hwf : tree.WellFormed) (h : tree.IsReal location) :
    tree.resolve location.path = .ok location := by
  have hnul : location.path.spelling.contains '\x00' = false := by
    obtain ⟨node, hnode, -⟩ := h
    rw [List.contains_eq_mem, decide_eq_false_iff_not, Location.path, List.mem_cons]
    rintro (hc | hc)
    · cases hc
    · rcases Text.mem_joinWith hc with hc | ⟨name, hn, hc⟩
      · cases List.mem_singleton.mp hc
      · exact (hwf.isName_of_mem hnode hn).nul_not_mem hc
  have hspelled : location.path.spelling ≠ [] := List.cons_ne_nil _ _
  rw [resolve, resolveFrom, if_neg hspelled, hnul, if_neg Bool.false_ne_true, ite_self, linkLimit,
    resolvePieces]
  exact descend_pieces_path hwf h

end Tree

end BulkEdit.Disk
