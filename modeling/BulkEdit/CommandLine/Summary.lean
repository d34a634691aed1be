import BulkEdit.Edit.Replay
import BulkEdit.Json.Basic

/-!
# Summaries

A report in lines for a reader, and as JSON for a program.
-/

namespace BulkEdit.CommandLine

/-- The text of a component on its own. -/
def componentText : Component → Text
  | .root => ['/']
  | .here => ['.']
  | .up => ['.', '.']
  | .name text => text

/-- A file as seen from a folder, or as it is where it is not below it. -/
def shownFrom (folder file : Path) : Text :=
  match folder.components.isPrefixOf? file.components with
  | some rest => Text.joinWith ['/'] (rest.map componentText)
  | none => file.spelling

def outcomeLine (folder : Path) (dryRun : Bool) (outcome : Outcome) : Text :=
  let file := shownFrom folder outcome.file
  if outcome.changed then
    let verb := if dryRun then "Would change ".toList else "Changed ".toList
    "✓ ".toList ++ verb ++ file ++ " (".toList ++ decimal outcome.edits ++ " edits)".toList
  else "⊙ Unchanged ".toList ++ file

/-- The lines on every file and on all of them. -/
def summaryLines (folder : Path) (dryRun : Bool) (report : Report) : List Text :=
  let changed := report.changedFiles.length
  report.files.map (outcomeLine folder dryRun) ++
    [[], "Summary:".toList,
      "  ".toList ++ decimal changed ++ " changed".toList,
      "  ".toList ++ decimal (report.files.length - changed) ++ " unchanged".toList,
      "  ".toList ++ decimal report.totalEdits ++ " edits replayed".toList]

def granularityName : Granularity → Text
  | .wholeFile => "whole-file".toList
  | .line => "line".toList

/-- The members of an outcome. The content is there only where it was kept. -/
def outcomeJson (outcome : Outcome) : Json :=
  let granularity := match outcome.granularity with
    | some granularity => Json.string (granularityName granularity)
    | none => .null
  let content := match outcome.content with
    | some content => [("content".toList, Json.string content)]
    | none => []
  .object ([("file".toList, .string outcome.file.spelling), ("granularity".toList, granularity),
    ("edits".toList, .natural outcome.edits), ("changed".toList, .boolean outcome.changed)] ++ content)

def reportJson (report : Report) : Json :=
  .object [("files".toList, .array (report.files.map outcomeJson))]

end BulkEdit.CommandLine
