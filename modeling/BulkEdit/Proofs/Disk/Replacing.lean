import BulkEdit.Disk.Access
import BulkEdit.Proofs.Disk.WellFormed
import Mathlib.Data.List.Nodup
import Mathlib.Data.List.Perm.Subperm

/-!
# Replacing a file

A file is replaced by way of a new one in the same directory. There is always a location left for the new
file, and it does not show afterwards which it was: the new file is moved to where the old one stands, or
taken away if a directory stands there.
-/

namespace BulkEdit.Disk

namespace Tree

variable {tree : Tree} {spare folder location other : Location} {node old : Node} {mode : Nat}
  {body : Body}

theorem ne_nil_of_get?_none (h : tree.get? location = none) : location ≠ [] := by
  rintro rfl
  cases h

theorem ne_nil_of_file (h : tree.get? location = some (.file mode body)) : location ≠ [] := by
  rintro rfl
  cases h

theorem get?_put_self (h : location ≠ []) (tree : Tree) (node : Node) :
    (tree.put location node).get? location = some node :=
  (get?_put tree location location node h).trans (if_pos rfl)

theorem get?_put_of_ne (h : other ≠ location) (tree : Tree) (node : Node) :
    (tree.put location node).get? other = tree.get? other := by
  by_cases hother : other = []
  · rw [hother]
    rfl
  · exact (get?_put tree location other node hother).trans (if_neg h)

theorem nodup_spares (tree : Tree) (folder : Location) : (tree.spares folder).Nodup := by
  refine List.Nodup.map (fun m n he => ?_) List.nodup_range
  have hlength := congrArg (fun location : Location => location.flatten.length) he
  simpa using hlength

/-- There are more locations to try than entries that could be in the way. -/
theorem exists_unused_spare (tree : Tree) (folder : Location) :
    ∃ location ∈ tree.spares folder, tree.get? location = none := by
  by_contra hused
  push Not at hused
  have hsubset : tree.spares folder ⊆ tree.entries.map Prod.fst := by
    intro location hmem
    obtain ⟨node, hnode⟩ := Option.ne_none_iff_exists'.mp (hused location hmem)
    obtain ⟨strokes, -, rfl⟩ := List.mem_map.mp hmem
    obtain ⟨entry, he, hlocation⟩ := exists_entry_of_get? hnode (by simp)
    exact List.mem_map.mpr ⟨entry, he, hlocation⟩
  have hlength := (List.subperm_of_subset (nodup_spares tree folder) hsubset).length_le
  rw [spares, List.length_map, List.length_range, List.length_map] at hlength
  exact Nat.not_succ_le_self _ hlength

theorem get?_spare (tree : Tree) (folder : Location) : tree.get? (tree.spare folder) = none := by
  obtain ⟨unused, hmem, hunused⟩ := exists_unused_spare tree folder
  rw [spare]
  cases hfind : (tree.spares folder).find? fun location => (tree.get? location).isNone with
  | none => exact absurd (Option.isNone_iff_eq_none.mpr hunused) (List.find?_eq_none.mp hfind unused hmem)
  | some location =>
    have hnone := List.find?_some hfind
    exact Option.isNone_iff_eq_none.mp hnone

/-- What a new file meets where it is moved to is what stood there before. -/
theorem move_put (hspare : tree.get? spare = none) (hold : tree.get? location = some old)
    (node : Node) :
    (tree.put spare node).move spare location =
      if old = .directory then .error .isADirectory else .ok (tree.put location node) := by
  have hne : location ≠ spare := by
    rintro rfl
    rw [hspare] at hold
    cases hold
  rw [move, get?_put_self (ne_nil_of_get?_none hspare), get?_put_of_ne hne, hold]
  cases old with
  | directory => rfl
  | file mode body => simp [unlink_put hspare]
  | link target => simp [unlink_put hspare]

end Tree

namespace Guard

variable {tree : Tree} {location : Location} {mode : Nat} {body : Body}

theorem overwrite_of_file (h : tree.get? location = some (.file mode body)) (text : Text) :
    overwrite location text tree = .ok () (tree.put location (.file mode (.text text))) := by
  have hmove := Tree.move_put (tree.get?_spare location.dropLast) h (.file mode (.text text))
  rw [if_neg fun he => nomatch he] at hmove
  rw [overwrite, if_neg (Tree.ne_nil_of_file h), h]
  simp only [Node.mode?, Option.getD_some, hmove]

/-- Where there is no file to replace, nothing is left of the attempt. -/
theorem overwrite_of_no_file (h : ∀ mode body, tree.get? location ≠ some (.file mode body))
    (text : Text) : ∃ fault, overwrite location text tree = .error fault tree := by
  rw [overwrite]
  split
  · exact ⟨.noParent, rfl⟩
  · cases hnode : tree.get? location with
    | none => exact ⟨.noSuchEntry, rfl⟩
    | some node =>
      cases node with
      | file mode body => exact absurd hnode (h mode body)
      | link target => exact ⟨.noSuchEntry, rfl⟩
      | directory =>
        have hspare := tree.get?_spare location.dropLast
        refine ⟨.isADirectory, ?_⟩
        simp only [Tree.move_put hspare hnode, if_true, Tree.unlink_put hspare]

end Guard

end BulkEdit.Disk
