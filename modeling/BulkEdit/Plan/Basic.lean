import BulkEdit.Edit.Basic

/-!
# Plans

A plan says which files to open and which rules to stage on them. A rule edits whole files or single
lines; a rule for lines may be held to certain numbers and to lines that contain a text.
-/

namespace BulkEdit

structure Rule where
  id : Text
  scope : Granularity
  manner : Manner
  search : Option Text
  replacement : Text
  lines : Option (List Nat)
  contains : Option Text
  deriving DecidableEq, Repr

namespace Rule

def searchText (rule : Rule) : Text := rule.search.getD []

/-- Whether a rule for lines is meant for the line `number`, which reads `text`. -/
def selects (rule : Rule) (number : Nat) (text : Text) : Bool :=
  rule.lines.all (·.contains number) && rule.contains.all text.has

end Rule

structure Plan where
  name : Text
  description : Option Text
  patterns : List Text
  rules : List Rule
  deriving DecidableEq, Repr

end BulkEdit
