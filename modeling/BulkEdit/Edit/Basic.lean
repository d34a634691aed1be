import BulkEdit.Path.Basic
import BulkEdit.Text.Lines
import BulkEdit.Text.Substitution

/-!
# Edits

An edit of a whole file says what to search for and what to put in its place. An edit of a line says
what the line was and what it becomes.
-/

namespace BulkEdit

inductive Granularity where
  | wholeFile
  | line
  deriving DecidableEq, Repr

/-- What an edit is bound to. Lines are numbered from one. -/
inductive Scope where
  | wholeFile
  | line (number : Nat)
  deriving DecidableEq, Repr

def Scope.granularity : Scope → Granularity
  | .wholeFile => .wholeFile
  | .line _ => .line

def Scope.lineNumber? : Scope → Option Nat
  | .wholeFile => none
  | .line number => some number

/-- How much of a text an edit replaces. -/
inductive Manner where
  | first
  | every
  | wholeLine
  deriving DecidableEq, Repr

/-- The text after a replacement. The whole line is replaced whatever is searched for. -/
def Manner.replace (manner : Manner) (search replacement text : Text) : Text :=
  match manner with
  | .first => Text.replaceFirst search replacement text
  | .every => Text.replaceAll search replacement text
  | .wholeLine => replacement

/-- An edit that has been recorded: search text and replacement of a whole file, or a line before and
after. -/
structure Edit where
  file : Path
  scope : Scope
  manner : Manner
  old : Text
  new : Text
  deriving DecidableEq, Repr

/-- What a request aims at. A line needs its text and its number, and both may be missing. -/
inductive Target where
  | wholeFile
  | line (text : Option Text) (number : Option Nat)
  deriving DecidableEq, Repr

structure Request where
  file : Path
  target : Target
  search : Text
  replacement : Text
  manner : Manner
  deriving DecidableEq, Repr

end BulkEdit
