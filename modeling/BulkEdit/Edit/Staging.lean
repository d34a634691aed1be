import BulkEdit.Edit.Basic
import BulkEdit.Failure

/-!
# Staging

Edits are recorded before anything is written. The ledger holds them in order; the drafts hold the
text that each edited line has so far, so that a second edit of a line starts from the first. Whether
a line is edited at all is decided by the line as it was read.
-/

namespace BulkEdit

/-- What happens to a state, with a failure or an answer. A failure keeps the state that it met. -/
abbrev Action (σ α : Type) := EStateM Failure σ α

abbrev Ledger := List Edit

/-- The edits of one file, in order. -/
def Ledger.ofFile (ledger : Ledger) (file : Path) : List Edit :=
  ledger.filter fun edit => edit.file.Same file

/-- The text that a line has after its edits so far. -/
structure Draft where
  file : Path
  number : Nat
  text : Text
  deriving DecidableEq, Repr

def Draft.isOf (draft : Draft) (file : Path) (number : Nat) : Bool :=
  draft.number == number && decide (draft.file.Same file)

theorem Draft.isOf_iff {draft : Draft} {file : Path} {number : Nat} :
    draft.isOf file number = true ↔ draft.number = number ∧ draft.file.Same file := by
  simp [isOf]

theorem Draft.isOf_congr {file f : Path} (h : file.Same f) (draft : Draft) (number : Nat) :
    draft.isOf file number = draft.isOf f number := by
  rw [Bool.eq_iff_iff, isOf_iff, isOf_iff]
  exact and_congr_right fun _ => ⟨fun hs => hs.trans h, fun hs => hs.trans h.symm⟩

abbrev Drafts := List Draft

namespace Drafts

def get? (drafts : Drafts) (file : Path) (number : Nat) : Option Text :=
  (drafts.find? (·.isOf file number)).map Draft.text

/-- Sets the text of a line, in the place of its draft if there is one. -/
def put (drafts : Drafts) (file : Path) (number : Nat) (text : Text) : Drafts :=
  match drafts with
  | [] => [⟨file, number, text⟩]
  | draft :: rest =>
    if draft.isOf file number then { draft with text } :: rest
    else draft :: put rest file number text

theorem get?_congr (drafts : Drafts) {file f : Path} (h : file.Same f) (number : Nat) :
    drafts.get? file number = drafts.get? f number := by
  simp only [get?, Draft.isOf_congr h]

/-- A text that is set is read back under every spelling of its file, and no other text changes. -/
theorem get?_put (drafts : Drafts) (file : Path) (number : Nat) (text : Text) (f : Path) (n : Nat) :
    (drafts.put file number text).get? f n =
      if number = n ∧ file.Same f then some text else drafts.get? f n := by
  induction drafts with
  | nil => by_cases h : number = n ∧ file.Same f <;> simp [put, get?, Draft.isOf, h]
  | cons draft rest ih =>
    rw [put]
    split
    next hd =>
      obtain ⟨hn, hs⟩ := Draft.isOf_iff.mp hd
      have hk : draft.isOf f n = true ↔ number = n ∧ file.Same f := by
        rw [Draft.isOf_iff, hn]
        exact and_congr_right fun _ => ⟨hs.symm.trans, hs.trans⟩
      have ht : ({ draft with text } : Draft).isOf f n = draft.isOf f n := rfl
      by_cases h : number = n ∧ file.Same f
      · simp only [get?, List.find?_cons, ht, hk.mpr h, if_pos h, Option.map_some]
      · simp only [get?, List.find?_cons, ht, Bool.eq_false_iff.mpr (mt hk.mp h), if_neg h]
    next hd =>
      by_cases hk : draft.isOf f n = true
      · have h : ¬ (number = n ∧ file.Same f) := by
          rintro ⟨rfl, hs⟩
          obtain ⟨hn, hf⟩ := Draft.isOf_iff.mp hk
          exact hd (Draft.isOf_iff.mpr ⟨hn, hf.trans hs.symm⟩)
        simp [get?, hk, h]
      · simpa [get?, hk] using ih

end Drafts

structure Staging where
  ledger : Ledger
  drafts : Drafts
  deriving DecidableEq, Repr

namespace Staging

def empty : Staging := ⟨[], []⟩

def record (staging : Staging) (edit : Edit) : Staging :=
  { staging with ledger := staging.ledger ++ [edit] }

/-- Records an edit of a whole file. Nothing is matched before the edits are replayed. -/
def stageFile (request : Request) : Action Staging Bool := fun staging =>
  if request.manner = .wholeLine then
    .error (.invalidRequest request.file .wholeLineInFile) staging
  else
    .ok true (staging.record
      ⟨request.file, .wholeFile, request.manner, request.search, request.replacement⟩)

/-- Whether a line that reads `text` is edited. -/
def isWanted (request : Request) (text : Text) : Bool :=
  request.manner == .wholeLine || text.has request.search

/-- The text of a line before its next edit. -/
def textBefore (staging : Staging) (file : Path) (number : Nat) (text : Text) : Text :=
  (staging.drafts.get? file number).getD text

/-- Records an edit of line `number`, which reads `text`. The answer is false where there is nothing
to edit. -/
def stageLine (request : Request) (text : Text) (number : Nat) : Action Staging Bool := fun staging =>
  if isWanted request text then
    let old := staging.textBefore request.file number text
    let new := request.manner.replace request.search request.replacement old
    .ok true
      { ledger := staging.ledger ++ [⟨request.file, .line number, request.manner, old, new⟩]
        drafts := staging.drafts.put request.file number new }
  else .ok false staging

def stage (request : Request) : Action Staging Bool :=
  match request.target with
  | .wholeFile => stageFile request
  | .line (some text) (some (number + 1)) => stageLine request text (number + 1)
  | .line text number => throw (.invalidRequest request.file (.unplacedLine text number))

end Staging

end BulkEdit
