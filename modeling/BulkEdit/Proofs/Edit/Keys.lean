import BulkEdit.Proofs.Edit.Requests

/-!
# Keys

Requests, edits and drafts are each about one thing: a whole file, or a line of it. Staging a request
looks at the draft of its own key alone and leaves a mark under its own key alone. What a run leaves
under some keys is therefore what the requests with those keys leave when they are staged by themselves.
-/

namespace BulkEdit

/-- What a request is about: a file, under any spelling, and the whole of it or the line of a number. -/
structure Key where
  file : List Component
  scope : Granularity
  number : Option Nat
  deriving DecidableEq, Repr

def Key.ofLine (file : Path) (number : Nat) : Key := ⟨file.components, .line, some number⟩

def Request.key (request : Request) : Key :=
  match request.target with
  | .wholeFile => ⟨request.file.components, .wholeFile, none⟩
  | .line _ number => ⟨request.file.components, .line, number⟩

def Edit.key (edit : Edit) : Key :=
  ⟨edit.file.components, edit.scope.granularity, edit.scope.lineNumber?⟩

def Draft.key (draft : Draft) : Key := .ofLine draft.file draft.number

theorem Request.file_key (request : Request) : request.key.file = request.file.components := by
  rw [key]
  cases request.target <;> rfl

theorem Request.key_of_target_line {request : Request} {text : Option Text} {number : Nat}
    (h : request.target = .line text (some number)) : request.key = .ofLine request.file number := by
  rw [key, h]
  rfl

theorem Edit.key_ofLine (request : Request) (number : Nat) (old : Text) :
    (Edit.ofLine request number old).key = .ofLine request.file number := rfl

theorem Edit.key_ofWholeFile {request : Request} (h : request.target = .wholeFile) :
    (Edit.ofWholeFile request).key = request.key := by
  rw [Request.key, h]
  rfl

theorem Draft.isOf_iff_key {draft : Draft} {file : Path} {number : Nat} :
    draft.isOf file number = true ↔ draft.key = .ofLine file number := by
  rw [isOf_iff, key, Key.ofLine, Key.ofLine, Key.mk.injEq, Option.some.injEq]
  exact ⟨fun ⟨hn, hs⟩ => ⟨hs, rfl, hn⟩, fun ⟨hs, _, hn⟩ => ⟨hn, hs⟩⟩

namespace Drafts

variable {wanted : Key → Bool} {file : Path} {number : Nat}

theorem get?_filter (wanted : Key → Bool) (h : wanted (.ofLine file number) = true)
    (drafts : Drafts) :
    get? (drafts.filter fun draft => wanted draft.key) file number = drafts.get? file number := by
  have hof : (fun draft : Draft => decide (wanted draft.key = true ∧ draft.isOf file number = true)) =
      fun draft => draft.isOf file number := by
    funext draft
    rw [Bool.eq_iff_iff, decide_eq_true_iff]
    exact ⟨And.right, fun ho => ⟨Draft.isOf_iff_key.mp ho ▸ h, ho⟩⟩
  rw [get?, get?, List.find?_filter, hof]

/-- The draft of a line is found among the drafts with its key. -/
theorem get?_filter_key (drafts : Drafts) (file : Path) (number : Nat) :
    get? (drafts.filter fun draft => draft.key = .ofLine file number) file number =
      drafts.get? file number := by
  have hkey : decide (Key.ofLine file number = .ofLine file number) = true := decide_eq_true rfl
  exact get?_filter (fun key => key = .ofLine file number) hkey drafts

/-- A draft that is not wanted can be set without a trace, and one that is wanted is set among those
that are. -/
theorem filter_put (drafts : Drafts) (text : Text) :
    (drafts.put file number text).filter (fun draft => wanted draft.key) =
      if wanted (.ofLine file number) then
        put (drafts.filter fun draft => wanted draft.key) file number text
      else drafts.filter fun draft => wanted draft.key := by
  induction drafts with
  | nil =>
    rw [put, List.filter_cons]
    rfl
  | cons draft rest ih =>
    rw [put, List.filter_cons]
    by_cases ho : draft.isOf file number = true
    · have hkey : draft.key = .ofLine file number := Draft.isOf_iff_key.mp ho
      have hset : ({ draft with text } : Draft).key = .ofLine file number := hkey
      rw [if_pos ho, List.filter_cons, hset, hkey]
      split
      · rw [put, if_pos ho]
      · rfl
    · rw [if_neg ho, List.filter_cons, ih]
      by_cases hw : wanted draft.key = true
      · rw [if_pos hw, if_pos hw]
        split
        · rw [put, if_neg ho]
        · rfl
      · rw [if_neg hw, if_neg hw]

end Drafts

namespace Staging

/-- What a staging holds under some keys. -/
def only (wanted : Key → Bool) (staging : Staging) : Staging where
  ledger := staging.ledger.filter fun edit => wanted edit.key
  drafts := staging.drafts.filter fun draft => wanted draft.key

variable {wanted : Key → Bool}

theorem filter_ledger_append (ledger : Ledger) (edit : Edit) :
    ((ledger ++ [edit]).filter fun edit => wanted edit.key) =
      if wanted edit.key then ledger.filter (fun edit => wanted edit.key) ++ [edit]
      else ledger.filter fun edit => wanted edit.key := by
  rw [List.filter_append, List.filter_cons, List.filter_nil]
  split
  · rfl
  · exact List.append_nil _

theorem only_record (staging : Staging) (edit : Edit) :
    (staging.record edit).only wanted =
      if wanted edit.key then (staging.only wanted).record edit else staging.only wanted := by
  rw [only, record, filter_ledger_append]
  split <;> rfl

theorem textBefore_only {file : Path} {number : Nat} (h : wanted (.ofLine file number) = true)
    (staging : Staging) (text : Text) :
    (staging.only wanted).textBefore file number text = staging.textBefore file number text := by
  rw [textBefore, textBefore, only, Drafts.get?_filter wanted h]

theorem only_recordLine (staging : Staging) (request : Request) (text : Text) (number : Nat) :
    (staging.recordLine request text number).only wanted =
      if wanted (.ofLine request.file number) then
        (staging.only wanted).recordLine request text number
      else staging.only wanted := by
  rw [only, recordLine, filter_ledger_append, Drafts.filter_put, Edit.key_ofLine]
  split
  next hw =>
    rw [recordLine, textBefore_only hw]
    rfl
  next => rfl

/-- A request shows under the wanted keys exactly if its own key is one of them. -/
theorem only_after_stage (request : Request) (staging : Staging) :
    ((stage request).after staging).only wanted =
      if wanted request.key then (stage request).after (staging.only wanted)
      else staging.only wanted := by
  rw [after_stage, after_stage]
  cases hv : request.verdict with
  | refused fault => exact (ite_self _).symm
  | idle => exact (ite_self _).symm
  | wholeFile => rw [only_record, Edit.key_ofWholeFile (Request.target_of_verdict_wholeFile hv)]
  | line text number =>
    rw [only_recordLine, Request.key_of_target_line (Request.target_of_verdict_line hv).1]

/-- What a run leaves under some keys is what the requests with those keys leave. -/
theorem only_stageAll (wanted : Key → Bool) (requests : List Request) (staging : Staging) :
    (stageAll requests staging).only wanted =
      stageAll (requests.filter fun request => wanted request.key) (staging.only wanted) := by
  induction requests generalizing staging with
  | nil => rfl
  | cons request rest ih =>
    rw [stageAll, ih, only_after_stage, List.filter_cons]
    split
    · rw [stageAll]
    · rfl

end Staging

/-- What a staging holds of a file. -/
def Staging.ofFile (staging : Staging) (file : Path) : Staging :=
  staging.only fun key => key.file = file.components

/-- The edits of a file after a run are those that the requests for the file leave. -/
theorem Ledger.ofFile_stageAll (requests : List Request) (staging : Staging) (file : Path) :
    Ledger.ofFile (Staging.stageAll requests staging).ledger file =
      (Staging.stageAll (requests.filter fun request => request.file.Same file)
        (staging.ofFile file)).ledger := by
  have h := Staging.only_stageAll (fun key => key.file = file.components) requests staging
  simp only [Request.file_key] at h
  exact congrArg Staging.ledger h

end BulkEdit
