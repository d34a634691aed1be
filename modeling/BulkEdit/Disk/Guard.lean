import BulkEdit.Disk.Resolution

/-!
# Guards

A guard keeps a batch of edits within a root directory and out of some directories in it. Paths are
judged by the location that they lead to. Which locations are forbidden is settled when the guard is
made.
-/

namespace BulkEdit.Disk

/-- Names of directories that are never entered. -/
def forbiddenNames : List Text := [".git".toList, "target".toList]

def isForbiddenName (name : Text) : Bool := forbiddenNames.contains name

structure Guard where
  root : Location
  forbidden : List Location
  deriving DecidableEq, Repr

namespace Guard

/-- The locations of the forbidden directories right below a root, as far as there are any. -/
def forbiddenBelow (tree : Tree) (root : Location) : List Location :=
  forbiddenNames.filterMap fun name => (tree.resolve (Location.path (root ++ [name]))).toOption

/-- The guard of the root that a path leads to. -/
def ofRoot (tree : Tree) (path : Path) : Except Rejection Guard :=
  match tree.resolve path with
  | .error fault => .error (.unresolved path fault)
  | .ok root => .ok ⟨root, forbiddenBelow tree root⟩

def rootPath (guard : Guard) : Path := Location.path guard.root

/-- Lets a location through that is below the root and below nothing forbidden. -/
def judge (guard : Guard) (location : Location) : Except Rejection Location :=
  if guard.root.isPrefixOf location then
    match guard.forbidden.find? (·.isPrefixOf location) with
    | some folder => .error (.forbidden location.path folder.path)
    | none => .ok location
  else .error (.outsideRoot location.path guard.rootPath)

/-- The location of a path, which is seen from the root, if it is let through. -/
def check (guard : Guard) (tree : Tree) (path : Path) : Except Rejection Location :=
  let path := guard.rootPath.join path
  match tree.resolve path with
  | .error fault => .error (.unresolved path fault)
  | .ok location => guard.judge location

end Guard

end BulkEdit.Disk
