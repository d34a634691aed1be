import BulkEdit.Plan.Basic
import BulkEdit.Session.Basic

/-!
# Staging plans

A plan is staged in two passes at most. The rules for files run in one pass over the files and the
rules for lines in one pass over the lines, each in the order of the plan. A tally names for every
edit the place of the rule that staged it.
-/

namespace BulkEdit.Plan

/-- The places of the rules that staged edits, in the order of the edits. -/
abbrev Tally := List Nat

/-- The rules of one scope with their places in the plan. -/
def rulesFor (plan : Plan) (scope : Granularity) : List (Rule × Nat) :=
  plan.rules.zipIdx.filter fun placed => placed.1.scope == scope

def fileCall (rule : Rule) : FileCall := ⟨rule.searchText, rule.replacement, rule.manner == .every⟩

def lineCall (rule : Rule) : LineCall :=
  match rule.manner with
  | .wholeLine => .replaceLine rule.replacement
  | manner => .replace rule.searchText rule.replacement (manner == .every)

/-- What the rules do on a visit to a file. -/
def fileScript : List (Rule × Nat) → Tally → Script FileCall Unit Tally
  | [], tally => .done tally
  | (rule, place) :: rest, tally =>
    .call (fileCall rule) fun _ => fileScript rest (tally ++ [place])

/-- What the rules do on a visit to a line. -/
def lineScript (line : Line) : List (Rule × Nat) → Tally → Script LineCall Bool Tally
  | [], tally => .done tally
  | (rule, place) :: rest, tally =>
    if rule.selects line.number line.text then
      .call (lineCall rule) fun staged =>
        lineScript line rest (if staged then tally ++ [place] else tally)
    else lineScript line rest tally

/-- A session with the rules of a plan staged in it, and for each rule the number of its edits. -/
structure Staged where
  session : Session
  counts : List (Text × Nat)
  deriving DecidableEq, Repr

variable {σ : Type}

/-- Runs a pass, if there are rules for it. -/
def runPass (rules : List (Rule × Nat)) (pass : Action (Session.PassState σ Tally) Unit) :
    Action (Session.PassState σ Tally) Unit :=
  if rules.isEmpty then pure () else pass

def passes (access : Access σ) (plan : Plan) (files : List Path) :
    Action (Session.PassState σ Tally) Unit := do
  let forFiles := plan.rulesFor .wholeFile
  let forLines := plan.rulesFor .line
  runPass forFiles (Session.filePass access (fun _ => fileScript forFiles) files)
  runPass forLines (Session.linePass access (fun view => lineScript view.line forLines) files)

def ruleCounts (plan : Plan) (tally : Tally) : List (Text × Nat) :=
  plan.rules.zipIdx.map fun placed => (placed.1.id, tally.count placed.2)

/-- Opens a session on the files of a plan and stages its rules. -/
def stage (access : Access σ) (plan : Plan) : Action σ Staged := fun store =>
  match Session.ofPatterns access plan.patterns store with
  | .error failure store => .error failure store
  | .ok session store =>
    match plan.passes access session.files ⟨store, session.staging, []⟩ with
    | .error failure state => .error failure state.store
    | .ok _ state => .ok ⟨⟨session.files, state.staging⟩, plan.ruleCounts state.memo⟩ state.store

end BulkEdit.Plan
