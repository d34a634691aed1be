import BulkEdit.Edit.Staging

/-!
# Replay

The edits of one file are replayed on the content that the file has by then. Edits of lines are not
placed by their numbers: each replaces the first stretch of the content that reads like its old line.
-/

namespace BulkEdit

/-- The edits of one file, all of one granularity. -/
inductive FileEdits where
  | untouched
  | wholeFile (edits : List Edit)
  | lines (edits : List Edit)
  deriving DecidableEq, Repr

namespace FileEdits

def ofEdits (file : Path) (edits : List Edit) : Except Failure FileEdits :=
  let lines := edits.filter (·.scope.granularity == .line)
  let wholes := edits.filter (·.scope.granularity == .wholeFile)
  match wholes.isEmpty, lines.isEmpty with
  | true, true => .ok .untouched
  | false, true => .ok (.wholeFile wholes)
  | true, false => .ok (.lines lines)
  | false, false => .error (.mixedGranularity file)

def edits : FileEdits → List Edit
  | .untouched => []
  | .wholeFile edits => edits
  | .lines edits => edits

def granularity? : FileEdits → Option Granularity
  | .untouched => none
  | .wholeFile _ => some .wholeFile
  | .lines _ => some .line

/-- The content after a line edit. Where the old line is not found the content stays. -/
def replayLine (content : Text) (edit : Edit) : Text :=
  Text.replaceFirst edit.old edit.new content

/-- The content after an edit of the whole file. A whole line has no meaning there. -/
def replayWhole (content : Text) (edit : Edit) : Text :=
  if edit.manner = .wholeLine then content
  else edit.manner.replace edit.old edit.new content

def replay (fileEdits : FileEdits) (content : Text) : Text :=
  match fileEdits with
  | .untouched => content
  | .wholeFile edits => edits.foldl replayWhole content
  | .lines edits => edits.foldl replayLine content

end FileEdits

/-- What became of one file. Its content is kept where nothing is written. -/
structure Outcome where
  file : Path
  granularity : Option Granularity
  edits : Nat
  changed : Bool
  content : Option Text
  deriving DecidableEq, Repr

structure Report where
  files : List Outcome
  deriving DecidableEq, Repr

namespace Report

def changedFiles (report : Report) : List Outcome := report.files.filter (·.changed)

def totalEdits (report : Report) : Nat := report.files.foldr (fun outcome total => outcome.edits + total) 0

end Report

/-- What the ledger makes of a file that reads `content`. -/
def Ledger.resolve (ledger : Ledger) (file : Path) (content : Text) :
    Except Failure (Outcome × Text) :=
  match FileEdits.ofEdits file (ledger.ofFile file) with
  | .error failure => .error failure
  | .ok fileEdits =>
    let output := fileEdits.replay content
    .ok (⟨file, fileEdits.granularity?, fileEdits.edits.length, output != content, none⟩, output)

end BulkEdit
