import BulkEdit.Edit.Staging

/-!
# Scripts

What a caller does on one visit to a file or a line: calls, each of which may depend on the replies to
those before, and at the end success or a failure. The memo is what the caller carries from visit to
visit.
-/

namespace BulkEdit

inductive Script (κ ρ β : Type) where
  | done (memo : β)
  | fail (failure : Failure) (memo : β)
  | call (input : κ) (next : ρ → Script κ ρ β)

namespace Script

variable {κ ρ β : Type}

/-- Runs a script. What it staged before a failure stays. -/
def run (perform : κ → Action Staging ρ) : Script κ ρ β → Action (Staging × β) Unit
  | .done memo, (staging, _) => .ok () (staging, memo)
  | .fail failure memo, (staging, _) => .error failure (staging, memo)
  | .call input next, (staging, memo) =>
    match perform input staging with
    | .ok reply staging => (next reply).run perform (staging, memo)
    | .error failure staging => .error failure (staging, memo)

end Script

/-- A call on a whole file. -/
structure FileCall where
  search : Text
  replacement : Text
  every : Bool
  deriving DecidableEq, Repr

/-- A call on one line. -/
inductive LineCall where
  | replace (search replacement : Text) (every : Bool)
  | replaceLine (replacement : Text)
  deriving DecidableEq, Repr

/-- A file with its content as read. -/
structure FileView where
  file : Path
  content : Text
  deriving DecidableEq, Repr

/-- A line of a file, with the content that it was read in. -/
structure LineView where
  file : Path
  content : Text
  line : Line
  deriving DecidableEq, Repr

def FileView.request (view : FileView) (call : FileCall) : Request :=
  ⟨view.file, .wholeFile, call.search, call.replacement, if call.every then .every else .first⟩

/-- Stages a call on a whole file. There is nothing to reply. -/
def FileView.perform (view : FileView) (call : FileCall) : Action Staging Unit := do
  let _ ← Staging.stage (view.request call)

def LineView.request (view : LineView) : LineCall → Request
  | .replace search replacement every =>
    ⟨view.file, .line (some view.line.text) (some view.line.number), search, replacement,
      if every then .every else .first⟩
  | .replaceLine replacement =>
    ⟨view.file, .line (some view.line.text) (some view.line.number), [], replacement, .wholeLine⟩

/-- Stages a call on a line. The reply tells whether there was something to edit. -/
def LineView.perform (view : LineView) (call : LineCall) : Action Staging Bool :=
  Staging.stage (view.request call)

end BulkEdit
