import BulkEdit.Plan.Basic
import BulkEdit.Text.Blank

/-!
# Validity of plans

All that is wrong with a plan is listed: first what concerns the plan, then its rules in order, and
for each rule its id, its manner with its search text, its filters and its line numbers.
-/

namespace BulkEdit

/-- A condition on plans that does not hold. -/
inductive Issue where
  | noPatterns
  | noRules
  | missingId
  | repeatedId (id : Text)
  | wholeLineInFile (id : Text)
  | missingSearch (id : Text)
  | linesInFile (id : Text)
  | containsInFile (id : Text)
  | lineZero (id : Text)
  deriving DecidableEq, Repr

namespace Issue

def inRule (id what : Text) : Text :=
  "rule '".toList ++ id ++ "' has invalid configuration: ".toList ++ what

def message : Issue → Text
  | .noPatterns => "plan lists no file patterns".toList
  | .noRules => "plan contains no rules".toList
  | .missingId => "rule missing required field 'id'".toList
  | .repeatedId id => "rule id '".toList ++ id ++ "' is used more than once".toList
  | .wholeLineInFile id => inRule id "whole-line mode requires line scope".toList
  | .missingSearch id => "rule '".toList ++ id ++ "' missing required field 'search'".toList
  | .linesInFile id => inRule id "lines filter requires line scope".toList
  | .containsInFile id => inRule id "contains filter requires line scope".toList
  | .lineZero id => inRule id "line numbers start at 1".toList

end Issue

namespace Rule

/-- An id that is blank is missing, and is not compared with others. -/
def idIssues (rule : Rule) (earlier : List Text) : List Issue :=
  if rule.id.isBlank then [.missingId]
  else if earlier.contains rule.id then [.repeatedId rule.id]
  else []

def mannerIssues (rule : Rule) : List Issue :=
  if rule.manner = .wholeLine then
    if rule.scope = .wholeFile then [.wholeLineInFile rule.id] else []
  else if rule.searchText.isEmpty then [.missingSearch rule.id]
  else []

def filterIssues (rule : Rule) : List Issue :=
  if rule.scope = .wholeFile then
    (if rule.lines.isSome then [.linesInFile rule.id] else []) ++
      (if rule.contains.isSome then [.containsInFile rule.id] else [])
  else []

def numberIssues (rule : Rule) : List Issue :=
  if rule.lines.any (·.contains 0) then [.lineZero rule.id] else []

/-- What is wrong with a rule that comes after rules with the ids `earlier`. -/
def issues (rule : Rule) (earlier : List Text) : List Issue :=
  rule.idIssues earlier ++ rule.mannerIssues ++ rule.filterIssues ++ rule.numberIssues

end Rule

namespace Plan

def rulesIssues (earlier : List Text) : List Rule → List Issue
  | [] => []
  | rule :: rest => rule.issues earlier ++ rulesIssues (earlier ++ [rule.id]) rest

def issues (plan : Plan) : List Issue :=
  (if plan.patterns.all Text.isBlank then [.noPatterns] else []) ++
    (if plan.rules.isEmpty then [.noRules] else []) ++ rulesIssues [] plan.rules

end Plan

end BulkEdit
