import BulkEdit.Access.Basic
import BulkEdit.Disk.Guard
import BulkEdit.Glob.Selection
import BulkEdit.Path.Order

/-!
# Access to a disk

Files below the root of a guard. They are found by a walk that follows no links and enters no directory
with a forbidden name; what it meets has to be a file or a link to one, has to be selected by its path
from the root, and has to be let through by the guard. A file is written at its location, where it
keeps its mode, so a link stays a link. The text goes into a new file first, which then takes the place
of the old one.
-/

namespace BulkEdit.Disk

namespace Tree

/-- What is not a directory, up to a depth below a directory. -/
def walk (tree : Tree) : Nat → Location → List Location
  | 0, _ => []
  | depth + 1, folder =>
    (tree.names folder).flatMap fun name =>
      match tree.get? (folder ++ [name]) with
      | none => []
      | some .directory =>
        if isForbiddenName name then []
        else (walk tree depth (folder ++ [name])).map (name :: ·)
      | some _ => [[name]]

/-- The locations in a folder that a new file may get, in the order in which they are tried. -/
def spares (tree : Tree) (folder : Location) : List Location :=
  (List.range (tree.entries.length + 1)).map fun strokes =>
    folder ++ [".tmp".toList ++ List.replicate strokes '~']

/-- The location of a new file in a folder, where nothing stands so far. -/
def spare (tree : Tree) (folder : Location) : Location :=
  ((tree.spares folder).find? fun location => (tree.get? location).isNone).getD folder

/-- Moves a file, in the place of what stands at its new location. A directory does not give way. -/
def move (tree : Tree) (source target : Location) : Except StoreFault Tree :=
  match tree.get? source, tree.get? target with
  | none, _ => .error .noSuchEntry
  | some _, some .directory => .error .isADirectory
  | some node, _ => .ok ((tree.unlink source).put target node)

end Tree

namespace Guard

/-- What may be a file, by its names from the root. The root itself may be one. -/
def candidates (guard : Guard) (tree : Tree) : Except StoreFault (List Location) := do
  let start ← tree.resolve guard.rootPath
  match tree.get? start with
  | some .directory => pure (tree.walk tree.height start)
  | _ => pure [[]]

/-- The path of what stands at these names from the root. -/
def pathOf (guard : Guard) (names : Location) : Path := Location.path (guard.root ++ names)

def isEligible (guard : Guard) (tree : Tree) (selection : Selection) (names : Location) : Bool :=
  tree.isFile (guard.pathOf names) && selection.selects (Text.joinWith ['/'] names) &&
    (guard.check tree (guard.pathOf names)).isOk

def find (guard : Guard) (patterns : List Text) : Action Tree (List Path) := fun tree =>
  match Selection.ofPatterns patterns with
  | .error reason => .error (.noFilesFound patterns reason) tree
  | .ok selection =>
    match guard.candidates tree with
    | .error fault => .error (.noFilesFound patterns (.unreadable guard.rootPath fault)) tree
    | .ok candidates =>
      let eligible := candidates.filter (guard.isEligible tree selection)
      .ok (Path.inOrder (eligible.map guard.pathOf)) tree

/-- The location of a path that is let through. Where the path leads nowhere, `failure` says what
that means. -/
def locate (guard : Guard) (failure : Path → StoreFault → Failure) (path : Path) :
    Action Tree Location := fun tree =>
  match guard.check tree path with
  | .error (.unresolved path fault) => .error (failure path fault) tree
  | .error rejection => .error (.rejected rejection) tree
  | .ok location => .ok location tree

def read (guard : Guard) (path : Path) : Action Tree Text := do
  let location ← guard.locate .unreadable path
  match (← get).textAt location with
  | .error fault => throw (.unreadable location.path fault)
  | .ok content => pure content

/-- The mode of a new file that takes the place of no other. -/
def newMode : Nat := 0o600

/-- Puts a text into the file at a location by way of a new file in the same directory, which has the
mode of the old one and is moved to its location. A new file that cannot be moved is taken away. A path
never ends at a link or where nothing stands. -/
def overwrite (location : Location) (content : Text) : EStateM StoreFault Tree Unit := fun tree =>
  if location = [] then .error .noParent tree
  else
    match tree.get? location with
    | none => .error .noSuchEntry tree
    | some (.link _) => .error .noSuchEntry tree
    | some node =>
      let spare := tree.spare location.dropLast
      let drafted := tree.put spare (.file (node.mode?.getD newMode) (.text content))
      match drafted.move spare location with
      | .error fault => .error fault (drafted.unlink spare)
      | .ok moved => .ok () moved

def write (guard : Guard) (path : Path) (content : Text) : Action Tree Unit := do
  let location ← guard.locate .unwritable path
  match overwrite location content (← get) with
  | .error fault tree =>
    set tree
    throw (.unwritable location.path fault)
  | .ok _ tree => set tree

def access (guard : Guard) : Access Tree := ⟨guard.find, guard.read, guard.write⟩

end Guard

end BulkEdit.Disk
