import BulkEdit.Proofs.Session.Passes

/-!
# What passes record

Calls on lines that no edit has touched yet record, line after line, one edit for each call that finds
something to edit in the line as it was read: the first starts from that line, and every other one from
what the one before it makes. Calls on files record one edit each.
-/

namespace BulkEdit

/-- The edits of a line that requests record, each from the text that the one before it makes. -/
def Edit.chain (number : Nat) : Text → List Request → List Edit
  | _, [] => []
  | old, request :: rest =>
    .ofLine request number old :: chain number (Edit.ofLine request number old).new rest

theorem Edit.mem_chain {number : Nat} {old : Text} {requests : List Request} {edit : Edit}
    (h : edit ∈ chain number old requests) :
    ∃ request ∈ requests, edit.file = request.file ∧ edit.scope = .line number := by
  induction requests generalizing old with
  | nil => cases h
  | cons request rest ih =>
    rcases List.mem_cons.mp h with rfl | h
    · exact ⟨request, List.mem_cons_self, rfl, rfl⟩
    · obtain ⟨other, ho, hedit⟩ := ih h
      exact ⟨other, List.mem_cons_of_mem request ho, hedit⟩

/-- The edits that calls record on a line that has none yet. -/
def LineView.edits (view : LineView) (calls : List LineCall) : List Edit :=
  Edit.chain view.line.number view.line.text
    ((view.requests calls).filter fun request => Staging.isWanted request view.line.text)

theorem LineView.mem_edits {view : LineView} {calls : List LineCall} {edit : Edit}
    (h : edit ∈ view.edits calls) :
    edit.file = view.file ∧ edit.scope = .line view.line.number := by
  obtain ⟨request, hr, hfile, hscope⟩ := Edit.mem_chain h
  obtain ⟨call, -, rfl⟩ := List.mem_map.mp (List.mem_filter.mp hr).1
  exact ⟨hfile.trans (view.file_request call), hscope⟩

namespace Staging

/-- Requests for other keys leave the draft of a line. -/
theorem get?_stageAll_of_ne {requests : List Request} {file : Path} {number : Nat}
    (h : ∀ request ∈ requests, request.key ≠ .ofLine file number) (staging : Staging) :
    (stageAll requests staging).drafts.get? file number = staging.drafts.get? file number := by
  have honly := only_stageAll (fun key => key = .ofLine file number) requests staging
  rw [List.filter_eq_nil_iff.mpr fun request hr => mt of_decide_eq_true (h request hr)] at honly
  have hdrafts := congrArg Staging.drafts honly
  rw [← Drafts.get?_filter_key, ← Drafts.get?_filter_key staging.drafts]
  exact congrArg (Drafts.get? · file number) hdrafts

theorem ledger_stageAll_requests {view : LineView} (h : 1 ≤ view.line.number)
    (calls : List LineCall) (staging : Staging) :
    (stageAll (view.requests calls) staging).ledger = staging.ledger ++
      Edit.chain view.line.number (staging.textBefore view.file view.line.number view.line.text)
        ((view.requests calls).filter fun request => isWanted request view.line.text) := by
  induction calls generalizing staging with
  | nil => exact (List.append_nil _).symm
  | cons call rest ih =>
    have hrest := ih ((stage (view.request call)).after staging)
    rw [LineView.requests] at hrest ⊢
    rw [List.map_cons, stageAll, hrest, LineView.after_stage_request h, List.filter_cons]
    by_cases hw : isWanted (view.request call) view.line.text = true
    · have hfile := view.file_request call
      have hsame : (view.request call).file.Same view.file := hfile ▸ Path.same_refl _
      rw [if_pos hw, if_pos hw, textBefore_recordLine_self staging hsame, recordLine, hfile,
        List.append_assoc]
      rfl
    · rw [if_neg hw, if_neg hw]

/-- Calls on lines that differ and have no edits yet. -/
theorem ledger_stageAll_views (calls : LineView → List LineCall) {views : List LineView}
    (hnumber : ∀ view ∈ views, 1 ≤ view.line.number)
    (hapart : views.Pairwise fun v w => v.key ≠ w.key) {staging : Staging}
    (hfresh : ∀ view ∈ views, staging.drafts.get? view.file view.line.number = none) :
    (stageAll (views.flatMap fun view => view.requests (calls view)) staging).ledger =
      staging.ledger ++ views.flatMap fun view => view.edits (calls view) := by
  induction views generalizing staging with
  | nil => exact (List.append_nil _).symm
  | cons view rest ih =>
    obtain ⟨hn, hnumbers⟩ := List.forall_mem_cons.mp hnumber
    obtain ⟨hview, hrest⟩ := List.pairwise_cons.mp hapart
    obtain ⟨hnone, hnones⟩ := List.forall_mem_cons.mp hfresh
    -- what is staged for one line leaves the lines behind it without edits
    have hfresh' : ∀ other ∈ rest, (stageAll (view.requests (calls view)) staging).drafts.get?
        other.file other.line.number = none := by
      intro other ho
      rw [get?_stageAll_of_ne, hnones other ho]
      intro request hr
      obtain ⟨call, -, rfl⟩ := List.mem_map.mp hr
      rw [LineView.key_request]
      exact hview other ho
    rw [List.flatMap_cons, stageAll_append, ih hnumbers hrest hfresh',
      ledger_stageAll_requests hn, textBefore, hnone, Option.getD_none, List.flatMap_cons,
      List.append_assoc, LineView.edits]

end Staging

namespace MemoryStore

variable (store : MemoryStore)

/-- The edits that calls on a file record. -/
def fileEdits (calls : FileView → List FileCall) (file : Path) : List Edit :=
  let view : FileView := ⟨file, store.textOf file⟩
  (calls view).map fun call => .ofWholeFile (view.request call)

/-- The edits that calls on the lines of a file record, if no line has any yet. -/
def lineEdits (calls : LineView → List LineCall) (file : Path) : List Edit :=
  (LineView.ofFile file (store.textOf file)).flatMap fun view => view.edits (calls view)

variable {store} {file : Path} {edit : Edit}

theorem mem_fileEdits {calls : FileView → List FileCall} (h : edit ∈ store.fileEdits calls file) :
    edit.file = file ∧ edit.scope.granularity = .wholeFile := by
  obtain ⟨call, -, rfl⟩ := List.mem_map.mp h
  exact ⟨rfl, rfl⟩

theorem mem_lineEdits {calls : LineView → List LineCall} (h : edit ∈ store.lineEdits calls file) :
    edit.file = file ∧ edit.scope.granularity = .line := by
  obtain ⟨view, hv, hedit⟩ := List.mem_flatMap.mp h
  obtain ⟨hfile, hscope⟩ := LineView.mem_edits hedit
  exact ⟨hfile.trans (LineView.file_of_mem hv), by rw [hscope]; rfl⟩

end MemoryStore

namespace Session

open MemoryStore (access)

variable {files : List Path} {store : MemoryStore}

/-- What calls on all files record, if all can be read. -/
theorem stageAll_seen_files (hread : ∀ file ∈ files, store.readFault? file = none)
    (calls : FileView → List FileCall) (staging : Staging) :
    Staging.stageAll ((store.seen FileView.ofFile files).flatMap fun view =>
        view.requests (calls view)) staging =
      { staging with ledger := staging.ledger ++ files.flatMap (store.fileEdits calls) } := by
  have hverdict : ∀ request ∈ (store.seen FileView.ofFile files).flatMap fun view =>
      view.requests (calls view), request.verdict = .wholeFile := by
    intro request hr
    obtain ⟨view, -, hview⟩ := List.mem_flatMap.mp hr
    obtain ⟨call, -, rfl⟩ := List.mem_map.mp hview
    exact view.verdict_request call
  rw [Staging.stageAll_wholeFile hverdict, MemoryStore.seen_of_readable hread]
  simp only [FileView.ofFile, FileView.requests, List.flatMap_assoc, List.flatMap_cons,
    List.flatMap_nil, List.append_nil, List.map_flatMap, List.map_map]
  rfl

theorem one_le_number_of_seen {view : LineView} (h : view ∈ store.seen LineView.ofFile files) :
    1 ≤ view.line.number := by
  obtain ⟨file, -, hv⟩ := MemoryStore.mem_seen h
  exact LineView.one_le_number_of_mem hv

/-- What calls on all lines record, if all files can be read and no line has been edited. -/
theorem ledger_stageAll_seen_lines (hd : Path.Distinct files)
    (hread : ∀ file ∈ files, store.readFault? file = none) (calls : LineView → List LineCall)
    {staging : Staging} (hfresh : staging.drafts = []) :
    (Staging.stageAll ((store.seen LineView.ofFile files).flatMap fun view =>
        view.requests (calls view)) staging).ledger =
      staging.ledger ++ files.flatMap (store.lineEdits calls) := by
  have hnone : ∀ view ∈ store.seen LineView.ofFile files,
      staging.drafts.get? view.file view.line.number = none := by
    intro view _
    rw [hfresh]
    rfl
  rw [Staging.ledger_stageAll_views calls (fun view hv => one_le_number_of_seen hv)
    (MemoryStore.pairwise_seen_lines hd store) hnone, MemoryStore.seen_of_readable hread,
    List.flatMap_assoc]
  rfl

variable {β : Type} {state : PassState MemoryStore β}

theorem filePass_of_readable (hread : ∀ file ∈ files, state.store.readFault? file = none)
    (calls : FileView → List FileCall) :
    filePass access (fun view => Script.calls (calls view)) files state =
      .ok () { state with staging := { state.staging with
        ledger := state.staging.ledger ++ files.flatMap (state.store.fileEdits calls) } } := by
  rw [filePass_calls, MemoryStore.unreadable?_of_readable hread]
  simp only [stageAll_seen_files hread]

theorem linePass_of_readable (hd : Path.Distinct files)
    (hread : ∀ file ∈ files, state.store.readFault? file = none)
    (hfresh : state.staging.drafts = []) (calls : LineView → List LineCall) :
    ∃ staging, staging.ledger = state.staging.ledger ++ files.flatMap (state.store.lineEdits calls) ∧
      linePass access (fun view => Script.calls (calls view)) files state =
        .ok () { state with staging } := by
  have hpass := linePass_calls calls files state
  rw [MemoryStore.unreadable?_of_readable hread] at hpass
  exact ⟨_, ledger_stageAll_seen_lines hd hread calls hfresh, hpass⟩

end Session

end BulkEdit
