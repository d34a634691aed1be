import BulkEdit.Disk.Resolution
import BulkEdit.Plan.Loading

/-!
# Plan files

A plan is read from a file that may stand anywhere on a disk. What is wrong with it is reported under
the path as it was given.
-/

namespace BulkEdit

/-- The plan in the file that a path leads to as seen from a directory. -/
def Plan.ofFile (tree : Disk.Tree) (folder : Disk.Location) (path : Path) :
    Except PlanFailure Plan :=
  match tree.readFrom folder path with
  | .error fault => .error (.unreadable path fault)
  | .ok text =>
    match Plan.ofText text with
    | .error fault => .error (.faulty (some path) fault)
    | .ok plan => .ok plan

end BulkEdit
