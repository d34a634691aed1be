import BulkEdit.CommandLine.Basic

/-!
# The program

The part of the disk that a command can see is read into a tree, the command is run on the tree, and the
files that it changed are written.
-/

namespace BulkEdit.Main

open Disk (Location Node Tree)

def stringOf (location : Location) : String := String.ofList location.path.spelling

/-- The location that an absolute path without dots and links in it spells. -/
def locationOf (path : String) : Location := (Text.pieces '/' path.toList).filter (· ≠ [])

def bodyOf (bytes : ByteArray) : Disk.Body :=
  match Text.ofUtf8? bytes.toList with
  | some content => .text content
  | none => .bytes bytes.toList

/-- The location at the end of all links, if there is anything. -/
def realLocation? (location : Location) : IO (Option Location) := do
  match ← (IO.FS.realPath (stringOf location)).toBaseIO with
  | .ok path => pure (some (locationOf path.toString))
  | .error _ => pure none

/-- What stands at a location that has no link on the way. A link counts as leading to its end. -/
def nodeAt? (location : Location) : IO (Option Node) := do
  match ← realLocation? location with
  | none => pure none
  | some real =>
    if real ≠ location then pure (some (.link real.path.spelling))
    else
      let path ← IO.FS.realPath (stringOf location)
      if ← path.isDir then pure (some .directory)
      else
        match ← (IO.FS.readBinFile path).toBaseIO with
        | .ok bytes => pure (some (.file 0 (bodyOf bytes)))
        | .error _ => pure none

/-- The tree with the directories that lead to a location. -/
def withFolders (tree : Tree) (location : Location) : Tree :=
  (List.range location.length).foldl
    (fun tree count =>
      if (tree.get? (location.take count)).isSome then tree
      else tree.put (location.take count) .directory)
    tree

/-- The tree with what stands at a location, and the node. -/
def survey (tree : Tree) (location : Location) : IO (Tree × Option Node) := do
  match ← nodeAt? location with
  | none => pure (tree, none)
  | some node => pure ((withFolders tree location).put location node, some node)

/-- The tree with all that a walk from a directory meets. Of links and of directories that are not
entered only the end is there. -/
partial def surveyBelow (tree : Tree) (folder : Location) : IO Tree := do
  let mut tree := tree
  for entry in ← (← IO.FS.realPath (stringOf folder)).readDir do
    let name := entry.fileName.toList
    let location := folder ++ [name]
    let (next, node) ← survey tree location
    tree := next
    match node with
    | some .directory =>
      if ¬ Disk.isForbiddenName name then tree ← surveyBelow tree location
    | some (.link target) => tree := (← survey tree (locationOf (String.ofList target))).1
    | _ => pure ()
  pure tree

/-- The tree with what a path meets on its way from a directory, and where it ends. -/
def follow (tree : Tree) (folder : Location) : List Component → IO (Tree × Option Location)
  | [] => pure (tree, some folder)
  | .root :: rest => follow tree [] rest
  | .here :: rest => follow tree folder rest
  | .up :: rest => follow tree folder.dropLast rest
  | .name name :: rest => do
    let (tree, _) ← survey tree (folder ++ [name])
    match ← realLocation? (folder ++ [name]) with
    | none => pure (tree, none)
    | some real => do
      let (tree, _) ← survey tree real
      follow tree real rest

/-- The tree with what a path leads to and, if that is a directory, with all below it. -/
def surveyPath (tree : Tree) (folder : Location) (path : Path) : IO Tree := do
  let (tree, location?) ← follow tree folder path.components
  match location? with
  | some location =>
    if tree.get? location = some .directory then surveyBelow tree location else pure tree
  | none => pure tree

/-- Writes the files that differ. -/
def store (before after : Tree) : IO Unit := do
  for (location, node) in after.entries do
    match node with
    | .file _ (.text content) =>
      if before.get? location ≠ some node then
        IO.FS.writeFile (stringOf location) (String.ofList content)
    | _ => pure ()

/-- The root of a command, which is the folder where nothing names another one. -/
def rootOf (surroundings : CommandLine.Surroundings) (given : Option Path) : Path :=
  given.getD ⟨surroundings.root.getD ['.']⟩

/-- The tree with the plan and with all below the root that a command may work on. -/
def treeOf (surroundings : CommandLine.Surroundings) (plan : Path) (root : Option Path) : IO Tree := do
  let folder := surroundings.folder
  let (tree, _) ← follow (withFolders .empty (folder ++ [[]])) folder plan.components
  let tree ← surveyPath tree folder (rootOf surroundings root)
  if (tree.resolveFrom folder (rootOf surroundings root)).isOk then pure tree
  else surveyBelow tree folder

/-- The tree that a command sees. Without a command nothing is read. -/
def treeFor (surroundings : CommandLine.Surroundings) (arguments : List Text) : IO Tree :=
  match CommandLine.Command.ofArguments arguments with
  | .error _ => pure .empty
  | .ok (.apply plan root _ _) => treeOf surroundings plan root
  | .ok (.files plan root) => treeOf surroundings plan root
  | .ok (.check plan) => do
    let folder := surroundings.folder
    let (tree, _) ← follow (withFolders .empty (folder ++ [[]])) folder plan.components
    pure tree

end BulkEdit.Main

open BulkEdit in
def main (arguments : List String) : IO UInt32 := do
  let folder := Main.locationOf (← IO.FS.realPath (← IO.currentDir)).toString
  let named ← IO.getEnv (String.ofList CommandLine.rootVariable)
  let surroundings : CommandLine.Surroundings := ⟨folder, named.map String.toList⟩
  let arguments := arguments.map String.toList
  let before ← Main.treeFor surroundings arguments
  let (ending, console) := CommandLine.run surroundings arguments before
  Main.store before console.disk
  IO.print (String.ofList console.out)
  IO.eprint (String.ofList console.err)
  pure (UInt32.ofNat ending.code)
