import BulkEdit.Proofs.Edit.Requests

/-!
# Ledger and drafts in step

The ledger and the drafts are two records of one history. Here the history is written out as a log of
the accepted requests with the edits that they record, and the ledger and the drafts are both read off
it: the edits of a line form a chain in the log, and its draft is the text at the end of the chain.
-/

namespace BulkEdit

/-- Whether an edit is of a line, under any spelling of its file. -/
def Edit.isOfLine (edit : Edit) (file : Path) (number : Nat) : Bool :=
  edit.scope == .line number && decide (edit.file.Same file)

theorem Edit.isOfLine_iff {edit : Edit} {file : Path} {number : Nat} :
    edit.isOfLine file number = true ↔ edit.scope = .line number ∧ edit.file.Same file := by
  simp [isOfLine]

/-- That an edit is what a request asks for, apart from the text that a line edit starts from. -/
structure Records (request : Request) (edit : Edit) : Prop where
  file : edit.file = request.file
  manner : edit.manner = request.manner
  wholeFile : edit.scope = .wholeFile →
    request.target = .wholeFile ∧ edit.old = request.search ∧ edit.new = request.replacement
  line : ∀ number, edit.scope = .line number → ∃ text, request.target = .line (some text) (some number)

theorem records_ofWholeFile {request : Request} (h : request.verdict = .wholeFile) :
    Records request (.ofWholeFile request) :=
  ⟨rfl, rfl, fun _ => ⟨Request.target_of_verdict_wholeFile h, rfl, rfl⟩, nofun⟩

theorem records_ofLine {request : Request} {text : Text} {number : Nat}
    (h : request.verdict = .line text number) (old : Text) :
    Records request (.ofLine request number old) := by
  refine ⟨rfl, rfl, nofun, fun n hn => ⟨text, ?_⟩⟩
  cases hn
  exact (Request.target_of_verdict_line h).1

/-- Accepted requests with the edits that they record. -/
abbrev Log := List (Request × Edit)

namespace Log

def ofLine (log : Log) (file : Path) (number : Nat) : Log :=
  log.filter fun entry => entry.2.isOfLine file number

/-- The text that the last edit of a log makes, or `previous` if the log is empty. -/
def last? : Option Text → Log → Option Text
  | previous, [] => previous
  | _, (_, edit) :: rest => last? (some edit.new) rest

/-- Edits of one line each of which starts from what the one before it makes. The first starts from
`previous`, or where that is missing from the line as its own request gives it. -/
def Chained : Option Text → Log → Prop
  | _, [] => True
  | previous, (request, edit) :: rest =>
    some edit.old = previous.or request.line? ∧
      edit.new = request.manner.replace request.search request.replacement edit.old ∧
      Chained (some edit.new) rest

theorem ofLine_append_of_isOfLine {log : Log} {request : Request} {edit : Edit} {file : Path}
    {number : Nat} (h : edit.isOfLine file number = true) :
    ofLine (log ++ [(request, edit)]) file number = log.ofLine file number ++ [(request, edit)] := by
  simp [ofLine, h]

theorem ofLine_append_of_not {log : Log} {request : Request} {edit : Edit} {file : Path}
    {number : Nat} (h : ¬ edit.isOfLine file number = true) :
    ofLine (log ++ [(request, edit)]) file number = log.ofLine file number := by
  simp [ofLine, h]

theorem last?_eq (previous : Option Text) (log : Log) :
    last? previous log = (log.getLast?.map fun entry => entry.2.new).or previous := by
  induction log generalizing previous with
  | nil => simp [last?]
  | cons entry rest ih =>
    rw [last?, ih, List.getLast?_cons]
    cases rest.getLast? <;> simp

theorem last?_append (previous : Option Text) (log : Log) (request : Request) (edit : Edit) :
    last? previous (log ++ [(request, edit)]) = some edit.new := by
  simp [last?_eq]

theorem chained_append {previous : Option Text} {log : Log} {request : Request} {edit : Edit}
    (h : Chained previous log) (hold : some edit.old = (last? previous log).or request.line?)
    (hnew : edit.new = request.manner.replace request.search request.replacement edit.old) :
    Chained previous (log ++ [(request, edit)]) := by
  induction log generalizing previous with
  | nil => exact ⟨hold, hnew, trivial⟩
  | cons entry rest ih =>
    obtain ⟨hstart, hmade, hrest⟩ := h
    exact ⟨hstart, hmade, ih hrest hold⟩

end Log

/-- What the ledger and the drafts are by the log. -/
structure InStep (log : Log) (staging : Staging) : Prop where
  ledger : log.map Prod.snd = staging.ledger
  recorded : ∀ entry ∈ log, Records entry.1 entry.2
  chained : ∀ file number, Log.Chained none (log.ofLine file number)
  draft : ∀ file number, staging.drafts.get? file number = Log.last? none (log.ofLine file number)

namespace InStep

variable {log : Log} {staging : Staging}

theorem empty : InStep [] .empty where
  ledger := rfl
  recorded := by simp
  chained _ _ := trivial
  draft _ _ := rfl

theorem recordWholeFile {request : Request} (h : InStep log staging)
    (hv : request.verdict = .wholeFile) :
    InStep (log ++ [(request, .ofWholeFile request)]) (staging.record (.ofWholeFile request)) := by
  have hline : ∀ file number,
      (log ++ [(request, Edit.ofWholeFile request)]).ofLine file number = log.ofLine file number :=
    fun file number => Log.ofLine_append_of_not (by simp [Edit.isOfLine, Edit.ofWholeFile])
  constructor
  · rw [List.map_append, h.ledger]
    rfl
  · intro entry he
    rcases List.mem_append.mp he with he | he
    · exact h.recorded entry he
    · obtain rfl := List.mem_singleton.mp he
      exact records_ofWholeFile hv
  · intro file number
    rw [hline]
    exact h.chained file number
  · intro file number
    rw [hline]
    exact h.draft file number

theorem recordLine {request : Request} {text : Text} {number : Nat} (h : InStep log staging)
    (hv : request.verdict = .line text number) :
    InStep
      (log ++ [(request, .ofLine request number (staging.textBefore request.file number text))])
      (staging.recordLine request text number) := by
  obtain ⟨htarget, -⟩ := Request.target_of_verdict_line hv
  generalize hold : staging.textBefore request.file number text = old
  have hof : ∀ file n, (Edit.ofLine request number old).isOfLine file n = true ↔
      number = n ∧ request.file.Same file := by
    intro file n
    simp [Edit.isOfLine_iff, Edit.ofLine]
  constructor
  · rw [List.map_append, h.ledger, Staging.recordLine, hold]
    rfl
  · intro entry he
    rcases List.mem_append.mp he with he | he
    · exact h.recorded entry he
    · obtain rfl := List.mem_singleton.mp he
      exact records_ofLine hv old
  · intro file n
    by_cases hl : (Edit.ofLine request number old).isOfLine file n = true
    · obtain ⟨rfl, hsame⟩ := (hof file n).mp hl
      rw [Log.ofLine_append_of_isOfLine hl]
      refine Log.chained_append (h.chained file number) ?_ rfl
      -- the text before is looked up under the spelling of the request
      rw [← h.draft, ← Drafts.get?_congr _ hsame, Request.line?, htarget, ← hold]
      change some (staging.textBefore request.file number text) = _
      rw [Staging.textBefore]
      cases staging.drafts.get? request.file number <;> rfl
    · rw [Log.ofLine_append_of_not hl]
      exact h.chained file n
  · intro file n
    rw [Staging.recordLine, Drafts.get?_put, hold]
    by_cases hl : (Edit.ofLine request number old).isOfLine file n = true
    · rw [Log.ofLine_append_of_isOfLine hl, Log.last?_append, if_pos ((hof file n).mp hl)]
    · rw [Log.ofLine_append_of_not hl, if_neg (mt (hof file n).mpr hl)]
      exact h.draft file n

/-- A log that is in step is continued by the accepted ones of the requests that follow. -/
theorem stageAll (requests : List Request) (h : InStep log staging) :
    ∃ more : Log, more.map Prod.fst = Staging.accepted requests staging ∧
      InStep (log ++ more) (Staging.stageAll requests staging) := by
  induction requests generalizing log staging with
  | nil => exact ⟨[], rfl, by simpa [Staging.stageAll] using h⟩
  | cons request rest ih =>
    rw [Staging.stageAll, Staging.after_stage, Staging.accepted, Staging.stage_eq]
    cases hv : request.verdict with
    | refused fault => exact ih h
    | idle => exact ih h
    | wholeFile =>
      obtain ⟨more, hm, hs⟩ := ih (h.recordWholeFile hv)
      rw [List.append_assoc] at hs
      exact ⟨(request, .ofWholeFile request) :: more, congrArg (request :: ·) hm, hs⟩
    | line text number =>
      obtain ⟨more, hm, hs⟩ := ih (h.recordLine hv)
      rw [List.append_assoc] at hs
      exact ⟨(request, .ofLine request number _) :: more, congrArg (request :: ·) hm, hs⟩

theorem isSome_draft_iff (h : InStep log staging) (file : Path) (number : Nat) :
    (staging.drafts.get? file number).isSome = true ↔
      ∃ edit ∈ staging.ledger, edit.scope = .line number ∧ edit.file.Same file := by
  have hlast : (staging.drafts.get? file number).isSome = true ↔ log.ofLine file number ≠ [] := by
    rw [h.draft, Log.last?_eq]
    simp
  rw [hlast, ← h.ledger]
  constructor
  · intro hne
    obtain ⟨entry, he⟩ := List.exists_mem_of_ne_nil _ hne
    obtain ⟨hmem, hline⟩ := List.mem_filter.mp he
    exact ⟨entry.2, List.mem_map_of_mem hmem, Edit.isOfLine_iff.mp hline⟩
  · rintro ⟨edit, hmem, hline⟩
    obtain ⟨entry, he, rfl⟩ := List.mem_map.mp hmem
    exact List.ne_nil_of_mem (List.mem_filter.mpr ⟨he, Edit.isOfLine_iff.mpr hline⟩)

end InStep

/-- What the answer to a request says of the staging after it. -/
def Answered (request : Request) (before : Staging) : EStateM.Result Failure Staging Bool → Prop
  | .error _ after => after = before
  | .ok false after => after = before
  | .ok true after =>
    ∃ edit, Records request edit ∧ after.ledger = before.ledger ++ [edit] ∧
      ∀ file number, ¬ (request.number? = some number ∧ request.file.Same file) →
        after.drafts.get? file number = before.drafts.get? file number

theorem answered_stage (request : Request) (staging : Staging) :
    Answered request staging (Staging.stage request staging) := by
  rw [Staging.stage_eq]
  cases hv : request.verdict with
  | refused fault => rfl
  | idle => rfl
  | wholeFile => exact ⟨_, records_ofWholeFile hv, rfl, fun _ _ _ => rfl⟩
  | line text number =>
    refine ⟨_, records_ofLine hv _, rfl, fun file n hn => ?_⟩
    have hnumber : request.number? = some number := by
      rw [Request.number?, (Request.target_of_verdict_line hv).1]
    rw [Staging.recordLine, Drafts.get?_put, if_neg]
    rintro ⟨rfl, hs⟩
    exact hn ⟨hnumber, hs⟩

theorem drafts_stage_wholeFile {request : Request} (h : request.target = .wholeFile)
    (staging : Staging) : ((Staging.stage request).after staging).drafts = staging.drafts := by
  rw [Staging.after_stage]
  cases hv : request.verdict with
  | line text number =>
    rw [(Request.target_of_verdict_line hv).1] at h
    cases h
  | _ => rfl

/-- After any requests on a fresh staging, whatever became of them: each further request keeps the
staging or records one edit, and the edits recorded for a line form a chain that ends in its draft. -/
theorem ledger_in_step_with_drafts (requests : List Request) :
    let staging := Staging.stageAll requests .empty
    (∀ request, Answered request staging (Staging.stage request staging) ∧
      (request.target = .wholeFile →
        ((Staging.stage request).after staging).drafts = staging.drafts)) ∧
    ∃ log : Log, log.map Prod.fst = Staging.accepted requests .empty ∧
      log.map Prod.snd = staging.ledger ∧
      (∀ entry ∈ log, Records entry.1 entry.2) ∧
      ∀ file number,
        ((staging.drafts.get? file number).isSome = true ↔
          ∃ edit ∈ staging.ledger, edit.scope = .line number ∧ edit.file.Same file) ∧
        Log.Chained none (log.ofLine file number) ∧
        staging.drafts.get? file number =
          (log.ofLine file number).getLast?.map fun entry => entry.2.new := by
  intro staging
  refine ⟨fun request => ⟨answered_stage request staging,
    fun h => drafts_stage_wholeFile h staging⟩, ?_⟩
  obtain ⟨log, hlog, hs⟩ := InStep.empty.stageAll requests
  refine ⟨log, hlog, hs.ledger, hs.recorded, fun file number => ?_⟩
  refine ⟨hs.isSome_draft_iff file number, hs.chained file number, ?_⟩
  have hdraft := hs.draft file number
  rwa [Log.last?_eq, Option.or_none] at hdraft

end BulkEdit
