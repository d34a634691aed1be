import BulkEdit.Disk.Tree
import BulkEdit.Failure
import BulkEdit.Text.Bytes

/-!
# Resolution of paths

A path is resolved name by name. A link is replaced by its target, as seen from the directory that the
link is in; two dots lead to the parent of the location reached so far. Only so many links are
followed on the way, which also ends the loops.
-/

namespace BulkEdit.Disk

/-- The greatest number of links on the way to a location. -/
def linkLimit : Nat := 40

/-- The greatest number of bytes in a name. -/
def nameLimit : Nat := 255

namespace Tree

/-- Follows the pieces of a path from a location. `follow` goes on from where a link is met. -/
def descend (tree : Tree) (follow : Location → List Text → Except StoreFault Location)
    (location : Location) : List Text → Except StoreFault Location
  | [] => .ok location
  | piece :: rest =>
    if tree.get? location ≠ some .directory then .error .notADirectory
    else if piece = [] ∨ piece = ['.'] then descend tree follow location rest
    else if piece = ['.', '.'] then descend tree follow location.dropLast rest
    else if nameLimit < piece.utf8.length then .error .nameTooLong
    else
      match tree.get? (location ++ [piece]) with
      | none => .error .noSuchEntry
      | some (.link target) => follow location (target.pieces '/' ++ rest)
      | some _ => descend tree follow (location ++ [piece]) rest

/-- Follows the pieces of a path with at most `links` links on the way. An absolute target starts over
from the top. -/
def resolvePieces (tree : Tree) : Nat → Location → List Text → Except StoreFault Location
  | 0 => tree.descend fun _ _ => .error .tooManyLinks
  | links + 1 => tree.descend fun location pieces =>
    resolvePieces tree links (if pieces.head? = some [] then [] else location) pieces

/-- The location of a path as seen from a directory. -/
def resolveFrom (tree : Tree) (folder : Location) (path : Path) : Except StoreFault Location :=
  if path.spelling = [] then .error .noSuchEntry
  else if path.spelling.contains '\x00' then .error .nulInName
  else
    tree.resolvePieces linkLimit (if path.isAbsolute then [] else folder) (path.spelling.pieces '/')

/-- The location of a path, a relative one as seen from the top. -/
def resolve (tree : Tree) (path : Path) : Except StoreFault Location := tree.resolveFrom [] path

/-- Whether a path leads to a file. -/
def isFile (tree : Tree) (path : Path) : Bool :=
  match tree.resolve path with
  | .ok location => (tree.get? location).any Node.isFile
  | .error _ => false

/-- The text of the file at a location. -/
def textAt (tree : Tree) (location : Location) : Except StoreFault Text :=
  match tree.get? location with
  | some (.file _ (.text content)) => .ok content
  | some (.file _ (.bytes _)) => .error .notText
  | some .directory => .error .isADirectory
  | _ => .error .noSuchEntry

/-- The text of the file that a path leads to as seen from a directory. -/
def readFrom (tree : Tree) (folder : Location) (path : Path) : Except StoreFault Text := do
  let location ← tree.resolveFrom folder path
  tree.textAt location

end Tree

end BulkEdit.Disk
