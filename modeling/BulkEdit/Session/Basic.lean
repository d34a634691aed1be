import BulkEdit.Access.Basic
import BulkEdit.Edit.Replay
import BulkEdit.Session.Script

/-!
# Sessions

A session is a fixed list of files with the edits staged for them. Passes visit every file or every
line and stage edits; a preview computes what the files become, and a commit writes it, one file
after the other up to the first failure.
-/

namespace BulkEdit

structure Session where
  files : List Path
  staging : Staging
  deriving DecidableEq, Repr

namespace Session

variable {σ κ ρ β ν : Type}

/-- Opens a session on the files that the patterns select. There has to be one. -/
def ofPatterns (access : Access σ) (patterns : List Text) : Action σ Session := do
  let found ← access.find patterns
  let files := Path.mergeAdjacent found
  if files.isEmpty then throw (.noFilesFound patterns .matchedNothing)
  else pure ⟨files, .empty⟩

/-- What changes in a pass: the store, the edits staged and the memo of the caller. -/
structure PassState (σ β : Type) where
  store : σ
  staging : Staging
  memo : β

/-- Visits the views in order up to the first failure. -/
def visitAll (perform : ν → κ → Action Staging ρ) (visit : ν → β → Script κ ρ β) :
    List ν → Action (Staging × β) Unit
  | [] => pure ()
  | view :: rest => fun state =>
    match (visit view state.2).run (perform view) state with
    | .ok _ state => visitAll perform visit rest state
    | .error failure state => .error failure state

/-- Reads the files in order and visits the views that each of them gives. -/
def pass (access : Access σ) (views : Path → Text → List ν) (perform : ν → κ → Action Staging ρ)
    (visit : ν → β → Script κ ρ β) : List Path → Action (PassState σ β) Unit
  | [] => pure ()
  | file :: rest => fun state =>
    match access.read file state.store with
    | .error failure store => .error failure { state with store }
    | .ok content store =>
      match visitAll perform visit (views file content) (state.staging, state.memo) with
      | .error failure (staging, memo) => .error failure ⟨store, staging, memo⟩
      | .ok _ (staging, memo) => pass access views perform visit rest ⟨store, staging, memo⟩

/-- Visits every file with its content. -/
def filePass (access : Access σ) (visit : FileView → β → Script FileCall Unit β) :
    List Path → Action (PassState σ β) Unit :=
  pass access (fun file content => [⟨file, content⟩]) FileView.perform visit

/-- Visits every line of every file, as it was read. -/
def linePass (access : Access σ) (visit : LineView → β → Script LineCall Bool β) :
    List Path → Action (PassState σ β) Unit :=
  pass access (fun file content => content.lines.map (⟨file, content, ·⟩)) LineView.perform visit

/-- What the ledger makes of a file, as the store has it. -/
def resolve (access : Access σ) (ledger : Ledger) (file : Path) : Action σ (Outcome × Text) := do
  let content ← access.read file
  match ledger.resolve file content with
  | .error failure => throw failure
  | .ok resolved => pure resolved

def previewFiles (access : Access σ) (ledger : Ledger) : List Path → Action σ (List Outcome)
  | [] => pure []
  | file :: rest => do
    let (outcome, output) ← resolve access ledger file
    let others ← previewFiles access ledger rest
    pure ({ outcome with content := some output } :: others)

/-- The report of a commit, with the content of every file, and nothing written. -/
def preview (access : Access σ) (session : Session) : Action σ Report := do
  let files ← previewFiles access session.staging.ledger session.files
  pure ⟨files⟩

def commitFiles (access : Access σ) (ledger : Ledger) : List Path → Action σ (List Outcome)
  | [] => pure []
  | file :: rest => do
    let (outcome, output) ← resolve access ledger file
    access.write file output
    let others ← commitFiles access ledger rest
    pure (outcome :: others)

/-- Writes every file. The files before one that fails stay written. -/
def commit (access : Access σ) (session : Session) : Action σ Report := do
  let files ← commitFiles access session.staging.ledger session.files
  pure ⟨files⟩

end Session

end BulkEdit
