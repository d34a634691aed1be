import BulkEdit.Edit.Staging

/-!
# Runs of requests

What becomes of a request is decided by the request alone. The staging that it meets only says from
which text a line edit starts. Runs are lists of requests, and no answer stops a run.
-/

namespace BulkEdit

/-- The state that an action leaves, whether it fails or not. -/
def Action.after {σ α : Type} (action : Action σ α) (state : σ) : σ :=
  match action state with
  | .ok _ state => state
  | .error _ state => state

/-- What a request comes to. -/
inductive Verdict where
  | refused (fault : RequestFault)
  | idle
  | wholeFile
  | line (text : Text) (number : Nat)
  deriving DecidableEq, Repr

namespace Request

def verdict (request : Request) : Verdict :=
  match request.target with
  | .wholeFile => if request.manner = .wholeLine then .refused .wholeLineInFile else .wholeFile
  | .line (some text) (some (number + 1)) =>
    if Staging.isWanted request text then .line text (number + 1) else .idle
  | .line text number => .refused (.unplacedLine text number)

/-- The line as the request gives it. -/
def line? (request : Request) : Option Text :=
  match request.target with
  | .line text _ => text
  | .wholeFile => none

/-- The number of the line that a request names. -/
def number? (request : Request) : Option Nat :=
  match request.target with
  | .line _ number => number
  | .wholeFile => none

theorem target_of_verdict_line {request : Request} {text : Text} {number : Nat}
    (h : request.verdict = .line text number) :
    request.target = .line (some text) (some number) ∧ 1 ≤ number := by
  rw [verdict] at h
  split at h
  · split at h <;> cases h
  next ht =>
    split at h
    · cases h
      exact ⟨ht, Nat.succ_pos _⟩
    · cases h
  · cases h

theorem target_of_verdict_wholeFile {request : Request} (h : request.verdict = .wholeFile) :
    request.target = .wholeFile := by
  rw [verdict] at h
  split at h
  next ht => exact ht
  · split at h <;> cases h
  · cases h

end Request

/-- The edit that a request for a whole file records. -/
def Edit.ofWholeFile (request : Request) : Edit :=
  ⟨request.file, .wholeFile, request.manner, request.search, request.replacement⟩

/-- The edit that a request for a line records, from the text that the line has before. -/
def Edit.ofLine (request : Request) (number : Nat) (old : Text) : Edit :=
  ⟨request.file, .line number, request.manner, old,
    request.manner.replace request.search request.replacement old⟩

namespace Staging

/-- Records the edit of a line and sets the draft of the line to what it makes. -/
def recordLine (staging : Staging) (request : Request) (text : Text) (number : Nat) : Staging :=
  let edit := Edit.ofLine request number (staging.textBefore request.file number text)
  ⟨staging.ledger ++ [edit], staging.drafts.put request.file number edit.new⟩

theorem stage_eq (request : Request) (staging : Staging) :
    stage request staging =
      match request.verdict with
      | .refused fault => .error (.invalidRequest request.file fault) staging
      | .idle => .ok false staging
      | .wholeFile => .ok true (staging.record (.ofWholeFile request))
      | .line text number => .ok true (staging.recordLine request text number) := by
  cases ht : request.target with
  | wholeFile =>
    by_cases hm : request.manner = .wholeLine
    · simp [stage, stageFile, Request.verdict, ht, hm]
    · simp [stage, stageFile, Request.verdict, ht, hm, Edit.ofWholeFile]
  | line text number =>
    match text, number with
    | none, _ => simp [stage, Request.verdict, ht]; rfl
    | some _, none => simp [stage, Request.verdict, ht]; rfl
    | some _, some 0 => simp [stage, Request.verdict, ht]; rfl
    | some text, some (number + 1) =>
      by_cases hw : isWanted request text = true
      · simp [stage, stageLine, Request.verdict, ht, hw, recordLine, Edit.ofLine]
      · simp [stage, stageLine, Request.verdict, ht, hw]

theorem textBefore_congr (staging : Staging) {file f : Path} (h : file.Same f) (number : Nat)
    (text : Text) : staging.textBefore file number text = staging.textBefore f number text := by
  rw [textBefore, textBefore, Drafts.get?_congr _ h]

theorem textBefore_recordLine_self (staging : Staging) {request : Request} {file : Path}
    (h : request.file.Same file) (text : Text) (number : Nat) (other : Text) :
    (staging.recordLine request text number).textBefore file number other =
      request.manner.replace request.search request.replacement
        (staging.textBefore file number text) := by
  rw [textBefore, recordLine, Drafts.get?_put, if_pos ⟨rfl, h⟩, Option.getD_some,
    textBefore_congr staging h]
  rfl

theorem textBefore_recordLine_of_ne (staging : Staging) (request : Request) (file : Path)
    (text : Text) {number n : Nat} (h : number ≠ n) (other : Text) :
    (staging.recordLine request text number).textBefore file n other =
      staging.textBefore file n other := by
  rw [textBefore, recordLine, Drafts.get?_put, if_neg (mt And.left h)]
  rfl

/-- Stages the requests in order, whatever becomes of each. -/
def stageAll : List Request → Staging → Staging
  | [], staging => staging
  | request :: rest, staging => stageAll rest ((stage request).after staging)

theorem stageAll_append (xs ys : List Request) (staging : Staging) :
    stageAll (xs ++ ys) staging = stageAll ys (stageAll xs staging) := by
  induction xs generalizing staging with
  | nil => rfl
  | cons request rest ih => exact ih ((stage request).after staging)

/-- Those of the requests, staged in order, that are answered with true. -/
def accepted : List Request → Staging → List Request
  | [], _ => []
  | request :: rest, staging =>
    match stage request staging with
    | .ok true staging => request :: accepted rest staging
    | .ok false staging => accepted rest staging
    | .error _ staging => accepted rest staging

theorem after_stage (request : Request) (staging : Staging) :
    (stage request).after staging =
      match request.verdict with
      | .refused _ => staging
      | .idle => staging
      | .wholeFile => staging.record (.ofWholeFile request)
      | .line text number => staging.recordLine request text number := by
  rw [Action.after, stage_eq]
  cases request.verdict <;> rfl

theorem stageAll_wholeFile {requests : List Request}
    (h : ∀ request ∈ requests, request.verdict = .wholeFile) (staging : Staging) :
    stageAll requests staging =
      { staging with ledger := staging.ledger ++ requests.map Edit.ofWholeFile } := by
  induction requests generalizing staging with
  | nil => rw [stageAll, List.map_nil, List.append_nil]
  | cons request rest ih =>
    obtain ⟨hrequest, hrest⟩ := List.forall_mem_cons.mp h
    rw [stageAll, after_stage, hrequest, ih hrest, record, List.append_assoc,
      List.singleton_append, List.map_cons]

end Staging

/-- The edit that a request records in a staging, if it records one. -/
def Request.edit? (request : Request) (staging : Staging) : Option Edit :=
  match request.verdict with
  | .refused _ => none
  | .idle => none
  | .wholeFile => some (.ofWholeFile request)
  | .line text number =>
    some (.ofLine request number (staging.textBefore request.file number text))

namespace Staging

/-- The edits that requests record, staged in order. -/
def recorded : List Request → Staging → List Edit
  | [], _ => []
  | request :: rest, staging =>
    (request.edit? staging).toList ++ recorded rest ((stage request).after staging)

theorem ledger_after_stage (request : Request) (staging : Staging) :
    ((stage request).after staging).ledger = staging.ledger ++ (request.edit? staging).toList := by
  rw [after_stage, Request.edit?]
  cases request.verdict with
  | refused fault => exact (List.append_nil _).symm
  | idle => exact (List.append_nil _).symm
  | wholeFile => rfl
  | line text number => rfl

/-- A run of requests only adds to the ledger. -/
theorem ledger_stageAll (requests : List Request) (staging : Staging) :
    (stageAll requests staging).ledger = staging.ledger ++ recorded requests staging := by
  induction requests generalizing staging with
  | nil => exact (List.append_nil _).symm
  | cons request rest ih => rw [stageAll, ih, ledger_after_stage, List.append_assoc, recorded]

/-- The ledger after a part of a run is a part of the ledger after all of it. -/
theorem ledger_stageAll_isPrefix {xs ys : List Request} (h : xs <+: ys) (staging : Staging) :
    (stageAll xs staging).ledger <+: (stageAll ys staging).ledger := by
  obtain ⟨rest, rfl⟩ := h
  rw [stageAll_append, ledger_stageAll rest]
  exact List.prefix_append _ _

end Staging

end BulkEdit
