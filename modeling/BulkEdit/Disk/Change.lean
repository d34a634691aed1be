import BulkEdit.Disk.Resolution

/-!
# Changes from outside

What other programs do to a disk between two steps of a batch of edits. Directories on the way to a
new entry are made, links on the way are followed, and a file is written through a link.
-/

namespace BulkEdit.Disk

inductive Change where
  | folder (path : Path)
  | file (path : Path) (mode : Nat) (body : Body)
  | link (path : Path) (target : Text)
  | removal (path : Path)
  deriving DecidableEq, Repr

namespace Tree

/-- Goes down the names of a path from a directory, and makes the directories that are missing. -/
def enter (tree : Tree) (folder : Location) : List Component → Option (Tree × Location)
  | [] => some (tree, folder)
  | .name name :: rest =>
    let next := folder ++ [name]
    match tree.get? next with
    | none => enter (tree.put next .directory) next rest
    | some _ =>
      match tree.resolve next.path with
      | .ok location => enter tree location rest
      | .error _ => none
  | .up :: rest => enter tree folder.dropLast rest
  | .here :: rest => enter tree folder rest
  | .root :: rest => enter tree [] rest

/-- The tree with the directory that is to hold a path, and the location of the path in it. -/
def place (tree : Tree) (folder : Location) (path : Path) : Option (Tree × Location) :=
  match path.components.reverse with
  | .name name :: earlier =>
    (enter tree folder earlier.reverse).map fun (tree, parent) => (tree, parent ++ [name])
  | _ => none

/-- The location that a file is written at, which is the end of a link if there is one. -/
def written (tree : Tree) (location : Location) : Location :=
  match tree.get? location with
  | some (.link _) => (tree.resolve location.path).toOption.getD location
  | _ => location

/-- The tree after a change to a path that is seen from a directory, if the change can be made. -/
def change? (tree : Tree) (folder : Location) : Change → Option Tree
  | .folder path => (tree.enter folder path.components).map Prod.fst
  | .file path mode body => do
    let (tree, location) ← tree.place folder path
    pure (tree.put (tree.written location) (.file mode body))
  | .link path target => do
    let (tree, location) ← tree.place folder path
    pure (tree.put location (.link target))
  | .removal path => do
    let (_, location) ← tree.place folder path
    pure (tree.remove location)

/-- The tree after a change. One that cannot be made leaves the tree as it is. -/
def change (tree : Tree) (folder : Location) (change : Change) : Tree :=
  (tree.change? folder change).getD tree

end Tree

end BulkEdit.Disk
