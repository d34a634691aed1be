import BulkEdit.CommandLine.Arguments
import BulkEdit.CommandLine.Problem
import BulkEdit.CommandLine.Summary
import BulkEdit.Disk.Access
import BulkEdit.Plan.File
import BulkEdit.Plan.Staging

/-!
# The command line

One command is run on a disk as seen from a folder. The root of the edits is the one given, else the
one that the environment names if it is there, else the folder. A command ends well, or with a
problem, or at once where the arguments are not understood.
-/

namespace BulkEdit.CommandLine

open Disk (Location Tree Guard)

/-- Where a command is run. -/
structure Surroundings where
  folder : Location
  /-- The root that the environment names, if it names one. -/
  root : Option Text
  deriving DecidableEq, Repr

/-- What a command works on, and what it has printed. -/
structure Console where
  disk : Tree
  out : Text
  err : Text
  deriving DecidableEq, Repr

abbrev Job (α : Type) := EStateM Problem Console α

def say (line : Text) : Job Unit :=
  modify fun console => { console with out := console.out ++ line ++ ['\n'] }

def warn (line : Text) : Job Unit :=
  modify fun console => { console with err := console.err ++ line ++ ['\n'] }

/-- Does something to the disk. -/
def onDisk {α : Type} (action : Action Tree α) : Job α := fun console =>
  match action console.disk with
  | .ok answer disk => .ok answer { console with disk }
  | .error failure disk => .error (.batch failure) { console with disk }

def rootVariable : Text := "BATCH_REPLACE_ROOT".toList

/-- The root that the environment names, or the folder with a warning where there is no such root. -/
def surroundingRoot (surroundings : Surroundings) : Job Location := do
  match surroundings.root with
  | none => pure surroundings.folder
  | some named =>
    match (← get).disk.resolveFrom surroundings.folder ⟨named⟩ with
    | .ok root => pure root
    | .error _ => do
      warn ("Warning: ".toList ++ rootVariable ++ " is set but path doesn't exist: ".toList ++ named)
      pure surroundings.folder

def resolveRoot (surroundings : Surroundings) (given : Option Path) : Job Location := do
  match given with
  | none => surroundingRoot surroundings
  | some path =>
    match (← get).disk.resolveFrom surroundings.folder path with
    | .ok root => pure root
    | .error fault => throw (.noRoot path fault)

def loadPlan (surroundings : Surroundings) (path : Path) : Job Plan := do
  match Plan.ofFile (← get).disk surroundings.folder path with
  | .ok plan => pure plan
  | .error failure => throw (.plan failure)

def guardOf (root : Location) : Job Guard := do
  match Guard.ofRoot (← get).disk root.path with
  | .ok guard => pure guard
  | .error rejection => throw (.batch (.rejected rejection))

/-- What is told before the edits are replayed. -/
def stagedLines (guard : Guard) (path : Path) (staged : Plan.Staged) : List Text :=
  let ruleLine (count : Text × Nat) : Text :=
    (if 0 < count.2 then "✓ ".toList else "⊘ ".toList) ++ count.1 ++ ": ".toList ++
      decimal count.2 ++ " edits staged".toList
  ["Root: ".toList ++ guard.rootPath.spelling, "Plan: ".toList ++ path.spelling,
    "Files: ".toList ++ decimal staged.session.files.length, []] ++
    staged.counts.map ruleLine ++ [[]]

/-- What is told of edits that could not be replayed. -/
def failureLines (guard : Guard) (dryRun : Bool) (failure : Failure) : List Text :=
  ("✗ ".toList ++ failure.message) ::
    match failure with
    | .mixedGranularity file =>
      ["  File: ".toList ++ shownFrom guard.rootPath file,
        "  A file can receive file-scope or line-scope rules, not both.".toList] ++
        (if dryRun then []
          else ["  Files before it in the list have already been written.".toList])
    | _ => []

/-- Replays the edits, and tells of a failure before it ends the command. -/
def replay (guard : Guard) (dryRun : Bool) (session : Session) : Job Report := fun console =>
  let action :=
    if dryRun then session.preview guard.access else session.commit guard.access
  match action console.disk with
  | .ok report disk => .ok report { console with disk }
  | .error failure disk =>
    match (failureLines guard dryRun failure).forM warn { console with disk } with
    | .ok _ console => .error (.batch failure) console
    | .error problem console => .error problem console

def runApply (surroundings : Surroundings) (path : Path) (root : Option Path) (dryRun json : Bool) :
    Job Unit := do
  let root ← resolveRoot surroundings root
  let plan ← loadPlan surroundings path
  let guard ← guardOf root
  let staged ← onDisk (plan.stage guard.access)
  if json then
    let report ← replay guard dryRun staged.session
    say (reportJson report).text
  else
    (stagedLines guard path staged).forM say
    if dryRun then say "[DRY RUN - nothing will be written]".toList
    let report ← replay guard dryRun staged.session
    (summaryLines guard.rootPath dryRun report).forM say

def runFiles (surroundings : Surroundings) (path : Path) (root : Option Path) : Job Unit := do
  let root ← resolveRoot surroundings root
  let plan ← loadPlan surroundings path
  let guard ← guardOf root
  let session ← onDisk (Session.ofPatterns guard.access plan.patterns)
  session.files.forM fun file => say (shownFrom guard.rootPath file)

def runCheck (surroundings : Surroundings) (path : Path) : Job Unit := do
  let plan ← loadPlan surroundings path
  say ("✓ ".toList ++ path.spelling ++ ": ".toList ++ decimal plan.rules.length ++
    " rules over ".toList ++ decimal plan.patterns.length ++ " patterns".toList)

def Command.run (surroundings : Surroundings) : Command → Job Unit
  | .apply plan root dryRun json => runApply surroundings plan root dryRun json
  | .files plan root => runFiles surroundings plan root
  | .check plan => runCheck surroundings plan

def programName : Text := "batch-replace".toList

def versionText : Text := programName ++ " 0.1.0\n".toList

def usageText : Text :=
  let line (verb : Verb) (options : String) : Text :=
    "  ".toList ++ programName ++ [' '] ++ verb.name ++ options.toList ++ ['\n']
  "Usage:\n".toList ++
    line .apply " --plan PLAN [--root FOLDER] [--dry-run] [--json] [--verbose]" ++
    line .files " --plan PLAN [--root FOLDER] [--verbose]" ++
    line .check " --plan PLAN [--verbose]"

/-- How the program ended. -/
inductive Ending where
  | done
  | failed (problem : Problem)
  | misused
  deriving DecidableEq, Repr

def Ending.code : Ending → Nat
  | .done => 0
  | .failed _ => 1
  | .misused => 2

/-- Runs the program on a disk. -/
def run (surroundings : Surroundings) (arguments : List Text) (disk : Tree) : Ending × Console :=
  match Command.ofArguments arguments with
  | .error .misused => (.misused, ⟨disk, [], usageText⟩)
  | .error .help => (.done, ⟨disk, usageText, []⟩)
  | .error .version => (.done, ⟨disk, versionText, []⟩)
  | .ok command =>
    match command.run surroundings ⟨disk, [], []⟩ with
    | .ok _ console => (.done, console)
    | .error problem console =>
      (.failed problem, { console with err := console.err ++ problem.text })

end BulkEdit.CommandLine
