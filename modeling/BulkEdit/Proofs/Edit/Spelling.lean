import BulkEdit.Proofs.Edit.Resolution
import BulkEdit.Proofs.Session.Interleaving
import Mathlib.Data.List.Forall2

/-!
# Spellings in runs of requests

Requests that differ only in how their files are spelled are staged alike: they are answered alike, the
ledgers have the same edits but for the spellings, and of every line and every file the same becomes, under
whichever spelling it is looked up.
-/

namespace BulkEdit

/-- That two requests differ at most in the spelling of their file. -/
def Request.Respelled (request other : Request) : Prop :=
  ∃ file, request.file.Same file ∧ other = { request with file }

/-- That two edits differ at most in the spelling of their file. -/
def Edit.Respelled (edit other : Edit) : Prop :=
  ∃ file, edit.file.Same file ∧ other = { edit with file }

/-- That two failures differ at most in the spelling of the file that they are about. -/
inductive Failure.Respelled : Failure → Failure → Prop where
  | refl (failure : Failure) : Respelled failure failure
  | invalidRequest {file other : Path} (h : file.Same other) (fault : RequestFault) :
      Respelled (.invalidRequest file fault) (.invalidRequest other fault)
  | mixedGranularity {file other : Path} (h : file.Same other) :
      Respelled (.mixedGranularity file) (.mixedGranularity other)
  | unreadable {file other : Path} (h : file.Same other) (fault : StoreFault) :
      Respelled (.unreadable file fault) (.unreadable other fault)
  | unwritable {file other : Path} (h : file.Same other) (fault : StoreFault) :
      Respelled (.unwritable file fault) (.unwritable other fault)

/-- That two answers are the same, or that both are failures and differ at most in a spelling. -/
inductive AnswersAlike {α : Type} : Except Failure α → Except Failure α → Prop where
  | answered (answer : α) : AnswersAlike (.ok answer) (.ok answer)
  | failed {failure other : Failure} (h : failure.Respelled other) :
      AnswersAlike (.error failure) (.error other)

theorem forall₂_any {α : Type} {R : α → α → Prop} {xs ys : List α} {p q : α → Bool}
    (hpq : ∀ x y, R x y → p x = q y) (h : List.Forall₂ R xs ys) : xs.any p = ys.any q := by
  induction h with
  | nil => rfl
  | cons hxy _ ih => rw [List.any_cons, List.any_cons, hpq _ _ hxy, ih]

namespace Ledger

variable {ledger other : Ledger} {file path : Path}

theorem ofFile_respelled (h : List.Forall₂ Edit.Respelled ledger other) (hs : file.Same path) :
    List.Forall₂ Edit.Respelled (ledger.ofFile file) (other.ofFile path) := by
  refine List.rel_filter ?_ h
  rintro edit _ ⟨spelling, he, rfl⟩
  simp only [decide_eq_true_eq]
  exact ⟨fun hf => (he.symm.trans hf).trans hs, fun hf => (he.trans hf).trans hs.symm⟩

theorem isMixed_respelled (h : List.Forall₂ Edit.Respelled ledger other) (hs : file.Same path) :
    ledger.isMixed file = other.isMixed path := by
  have hof := ofFile_respelled h hs
  have hany : ∀ g : Granularity, (ledger.ofFile file).any (·.scope.granularity == g) =
      (other.ofFile path).any (·.scope.granularity == g) := by
    intro g
    refine forall₂_any ?_ hof
    rintro edit _ ⟨spelling, -, rfl⟩
    rfl
  rw [isMixed, isMixed, hany, hany]

theorem replayed_respelled (h : List.Forall₂ Edit.Respelled ledger other) (hs : file.Same path)
    (content : Text) : ledger.replayed file content = other.replayed path content := by
  refine List.rel_foldl (P := Eq) ?_ rfl (ofFile_respelled h hs)
  rintro text _ rfl edit _ ⟨spelling, -, rfl⟩
  rfl

theorem outcome_respelled (h : List.Forall₂ Edit.Respelled ledger other) (hs : file.Same path)
    (content : Text) :
    other.outcome path content = { ledger.outcome file content with file := path } := by
  have hof := ofFile_respelled h hs
  have hhead : ((ledger.ofFile file).head?.map fun edit => edit.scope.granularity) =
      (other.ofFile path).head?.map fun edit => edit.scope.granularity := by
    generalize ledger.ofFile file = mine, other.ofFile path = theirs at hof
    cases hof with
    | nil => rfl
    | cons he _ =>
      obtain ⟨spelling, -, rfl⟩ := he
      rfl
  simp only [outcome, replayed_respelled h hs, hhead, hof.length_eq]

/-- That a file is resolved alike under two spellings: to the same text with reports that differ in the
spelling, or that it has edits of both granularities under either. -/
def ResolvedAlike (file path : Path) (resolved other : Except Failure (Outcome × Text)) : Prop :=
  (∃ outcome text, resolved = .ok (outcome, text) ∧
    other = .ok ({ outcome with file := path }, text)) ∨
  resolved = .error (.mixedGranularity file) ∧ other = .error (.mixedGranularity path)

theorem resolve_respelled (h : List.Forall₂ Edit.Respelled ledger other) (hs : file.Same path)
    (content : Text) :
    ResolvedAlike file path (ledger.resolve file content) (other.resolve path content) := by
  rw [resolve_eq, resolve_eq, isMixed_respelled h hs]
  split
  · exact .inr ⟨rfl, rfl⟩
  · refine .inl ⟨_, _, rfl, ?_⟩
    rw [outcome_respelled h hs, replayed_respelled h hs]

end Ledger

namespace Staging

/-- That two stagings differ at most in spellings, which make no difference to the drafts. -/
structure Alike (staging other : Staging) : Prop where
  ledger : List.Forall₂ Edit.Respelled staging.ledger other.ledger
  drafts : ∀ {file path : Path}, file.Same path → ∀ number,
    staging.drafts.get? file number = other.drafts.get? path number

theorem alike_empty : empty.Alike empty := ⟨.nil, fun _ _ => rfl⟩

variable {staging other : Staging} {request respelled : Request}

theorem Alike.textBefore (h : staging.Alike other) {file path : Path} (hs : file.Same path)
    (number : Nat) (text : Text) :
    staging.textBefore file number text = other.textBefore path number text := by
  rw [Staging.textBefore, Staging.textBefore, h.drafts hs]

theorem Alike.record (h : staging.Alike other) {edit edit' : Edit} (he : edit.Respelled edit') :
    (staging.record edit).Alike (other.record edit') where
  ledger := List.rel_append h.ledger (.cons he .nil)
  drafts := h.drafts

theorem Alike.recordLine (h : staging.Alike other) (hr : request.Respelled respelled) (text : Text)
    (number : Nat) :
    (staging.recordLine request text number).Alike (other.recordLine respelled text number) := by
  obtain ⟨file, hs, rfl⟩ := hr
  have htext := h.textBefore hs number text
  constructor
  · refine List.rel_append h.ledger (.cons ⟨file, hs, ?_⟩ .nil)
    simp only [Edit.ofLine, htext]
  · intro p q hpq n
    have hsame : request.file.Same p ↔ file.Same q :=
      ⟨fun hp => (hs.symm.trans hp).trans hpq, fun hq => (hs.trans hq).trans hpq.symm⟩
    simp only [Staging.recordLine, Drafts.get?_put, hsame, h.drafts hpq, Edit.ofLine, htext]

theorem verdict_respelled (hr : request.Respelled respelled) : respelled.verdict = request.verdict := by
  obtain ⟨file, -, rfl⟩ := hr
  rfl

theorem answer_respelled (hr : request.Respelled respelled) :
    AnswersAlike request.answer respelled.answer := by
  rw [Request.answer, Request.answer, verdict_respelled hr]
  obtain ⟨file, hs, rfl⟩ := hr
  cases request.verdict with
  | refused fault => exact .failed (.invalidRequest hs fault)
  | idle => exact .answered _
  | wholeFile => exact .answered _
  | line text number => exact .answered _

/-- One request keeps stagings alike. -/
theorem Alike.stage (h : staging.Alike other) (hr : request.Respelled respelled) :
    ((Staging.stage request).after staging).Alike ((Staging.stage respelled).after other) := by
  rw [after_stage, after_stage, verdict_respelled hr]
  cases request.verdict with
  | refused fault => exact h
  | idle => exact h
  | wholeFile =>
    obtain ⟨file, hs, rfl⟩ := hr
    exact h.record ⟨file, hs, rfl⟩
  | line text number => exact h.recordLine hr text number

/-- Respelled requests are answered alike and leave stagings that are alike. -/
theorem Alike.stageAll (h : staging.Alike other) {requests others : List Request}
    (hrequests : List.Forall₂ Request.Respelled requests others) :
    List.Forall₂ (fun entry entry' => AnswersAlike entry.2 entry'.2)
      (transcript requests staging) (transcript others other) ∧
    (Staging.stageAll requests staging).Alike (Staging.stageAll others other) := by
  induction hrequests generalizing staging other with
  | nil => exact ⟨.nil, h⟩
  | cons hr _ ih =>
    obtain ⟨hanswers, hafter⟩ := ih (h.stage hr)
    refine ⟨.cons ?_ hanswers, hafter⟩
    rw [answer_stage, answer_stage]
    exact answer_respelled hr

end Staging

end BulkEdit
