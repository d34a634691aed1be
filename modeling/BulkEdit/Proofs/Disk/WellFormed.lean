import BulkEdit.Disk.Resolution
import Mathlib.Data.List.Induction

/-!
# Well-formed trees

What every disk keeps to: a name is one that a path can spell, and whatever has something in it is a
directory.
-/

namespace BulkEdit.Disk

/-- A name that something in a directory can have. -/
structure IsName (name : Text) : Prop where
  ne_nil : name ≠ []
  ne_here : name ≠ ['.']
  ne_up : name ≠ ['.', '.']
  slash_not_mem : '/' ∉ name
  nul_not_mem : '\x00' ∉ name
  length_le : name.utf8.length ≤ nameLimit

theorem isName_iff {name : Text} :
    IsName name ↔ name ≠ [] ∧ name ≠ ['.'] ∧ name ≠ ['.', '.'] ∧ '/' ∉ name ∧ '\x00' ∉ name ∧
      name.utf8.length ≤ nameLimit :=
  ⟨fun ⟨a, b, c, d, e, f⟩ => ⟨a, b, c, d, e, f⟩, fun ⟨a, b, c, d, e, f⟩ => ⟨a, b, c, d, e, f⟩⟩

instance (name : Text) : Decidable (IsName name) := decidable_of_iff _ isName_iff.symm

namespace Tree

structure WellFormed (tree : Tree) : Prop where
  names : ∀ entry ∈ tree.entries, ∀ name ∈ entry.1, IsName name
  folders : ∀ entry ∈ tree.entries, tree.get? entry.1.dropLast = some .directory

theorem wellFormed_iff {tree : Tree} :
    tree.WellFormed ↔ (∀ entry ∈ tree.entries, ∀ name ∈ entry.1, IsName name) ∧
      ∀ entry ∈ tree.entries, tree.get? entry.1.dropLast = some .directory :=
  ⟨fun ⟨a, b⟩ => ⟨a, b⟩, fun ⟨a, b⟩ => ⟨a, b⟩⟩

instance (tree : Tree) : Decidable tree.WellFormed := decidable_of_iff _ wellFormed_iff.symm

/-- That something other than a link stands at a location, so that a path can end there. -/
def IsReal (tree : Tree) (location : Location) : Prop :=
  ∃ node, tree.get? location = some node ∧ ∀ target, node ≠ .link target

variable {tree : Tree} {location : Location} {node : Node}

theorem get?_nil (tree : Tree) : tree.get? [] = some .directory := rfl

theorem isReal_of_directory (h : tree.get? location = some .directory) : tree.IsReal location :=
  ⟨.directory, h, fun _ he => nomatch he⟩

theorem isReal_of_file {mode : Nat} {body : Body} (h : tree.get? location = some (.file mode body)) :
    tree.IsReal location :=
  ⟨.file mode body, h, fun _ he => nomatch he⟩

theorem exists_entry_of_get? (h : tree.get? location = some node) (hne : location ≠ []) :
    ∃ entry ∈ tree.entries, entry.1 = location := by
  rw [get?, if_neg hne] at h
  obtain ⟨entry, hfind, -⟩ := Option.map_eq_some_iff.mp h
  have hentry := List.find?_some hfind
  exact ⟨entry, List.mem_of_find?_eq_some hfind, by simpa using hentry⟩

namespace WellFormed

theorem isName_of_mem (hwf : tree.WellFormed) (h : tree.get? location = some node) {name : Text}
    (hn : name ∈ location) : IsName name := by
  obtain ⟨entry, he, rfl⟩ := exists_entry_of_get? h (List.ne_nil_of_mem hn)
  exact hwf.names entry he name hn

theorem folder_of_get? (hwf : tree.WellFormed) (h : tree.get? location = some node) :
    tree.get? location.dropLast = some .directory := by
  by_cases hne : location = []
  · subst hne
    exact get?_nil tree
  · obtain ⟨entry, he, rfl⟩ := exists_entry_of_get? h hne
    exact hwf.folders entry he

/-- On the way to a location there are directories alone. -/
theorem directory_of_append (hwf : tree.WellFormed) {rest : Location} (hne : rest ≠ [])
    (h : tree.get? (location ++ rest) = some node) : tree.get? location = some .directory := by
  induction rest using List.reverseRecOn generalizing node with
  | nil => exact absurd rfl hne
  | append_singleton rest name ih =>
    have hfolder := hwf.folder_of_get? h
    rw [← List.append_assoc, List.dropLast_concat] at hfolder
    by_cases hr : rest = []
    · rwa [hr, List.append_nil] at hfolder
    · exact ih hr hfolder

theorem isReal_of_append (hwf : tree.WellFormed) {rest : Location}
    (h : tree.IsReal (location ++ rest)) : tree.IsReal location := by
  by_cases hr : rest = []
  · rwa [hr, List.append_nil] at h
  · obtain ⟨node, hnode, -⟩ := h
    exact isReal_of_directory (hwf.directory_of_append hr hnode)

end WellFormed

end Tree

end BulkEdit.Disk
