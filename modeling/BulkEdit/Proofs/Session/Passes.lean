import BulkEdit.Proofs.Edit.Keys
import BulkEdit.Proofs.Session.Moves
import BulkEdit.Proofs.Text.Lines
import Mathlib.Data.List.Basic
import Mathlib.Data.List.TakeWhile

/-!
# Passes as runs of requests

A pass over files in memory visits what is seen of the files in front of the first that cannot be read,
and fails only for that file or in a visit. Where the visits only make calls, nothing fails in them, and
what the pass stages is one run of requests.
-/

namespace BulkEdit

/-- Makes the calls one after the other, whatever the replies are. -/
def Script.calls {κ ρ β : Type} : List κ → β → Script κ ρ β
  | [], memo => .done memo
  | input :: rest, memo => .call input fun _ => calls rest memo

/-- A call for which nothing is refused stages its request and replies. -/
theorem Script.run_calls {κ ρ β : Type} {perform : κ → Action Staging ρ} {request : κ → Request}
    (h : ∀ input staging, ∃ reply,
      perform input staging = .ok reply ((Staging.stage (request input)).after staging))
    (inputs : List κ) (memo : β) (staging : Staging) (ignored : β) :
    (Script.calls inputs memo).run perform (staging, ignored) =
      .ok () (Staging.stageAll (inputs.map request) staging, memo) := by
  induction inputs generalizing staging with
  | nil => rfl
  | cons input rest ih =>
    obtain ⟨reply, hreply⟩ := h input staging
    simp only [calls, run, hreply]
    exact ih _

namespace FileView

def ofFile (file : Path) (content : Text) : List FileView := [⟨file, content⟩]

theorem verdict_request (view : FileView) (call : FileCall) :
    (view.request call).verdict = .wholeFile := by
  have hmanner : (view.request call).manner ≠ .wholeLine := by
    cases he : call.every <;> simp [request, he]
  exact if_neg hmanner

theorem perform_eq (view : FileView) (call : FileCall) (staging : Staging) :
    view.perform call staging = .ok () (staging.record (.ofWholeFile (view.request call))) := by
  simp only [perform, bind, EStateM.bind, Staging.stage_eq, verdict_request]
  rfl

theorem perform_eq_after (view : FileView) (call : FileCall) (staging : Staging) :
    view.perform call staging = .ok () ((Staging.stage (view.request call)).after staging) := by
  rw [Staging.after_stage, verdict_request]
  exact perform_eq view call staging

def requests (view : FileView) (calls : List FileCall) : List Request := calls.map view.request

end FileView

namespace LineView

def ofFile (file : Path) (content : Text) : List LineView := content.lines.map (⟨file, content, ·⟩)

theorem one_le_number_of_mem {file : Path} {content : Text} {view : LineView}
    (h : view ∈ ofFile file content) : 1 ≤ view.line.number := by
  obtain ⟨line, hl, rfl⟩ := List.mem_map.mp h
  exact Line.le_number_of_mem hl

theorem target_request (view : LineView) (call : LineCall) :
    (view.request call).target = .line (some view.line.text) (some view.line.number) := by
  cases call <;> rfl

theorem file_request (view : LineView) (call : LineCall) : (view.request call).file = view.file := by
  cases call <;> rfl

theorem verdict_request {view : LineView} (h : 1 ≤ view.line.number) (call : LineCall) :
    (view.request call).verdict =
      if Staging.isWanted (view.request call) view.line.text then
        .line view.line.text view.line.number
      else .idle := by
  obtain ⟨number, hn⟩ := Nat.exists_eq_succ_of_ne_zero (Nat.ne_of_gt h)
  rw [Request.verdict, target_request, hn]

theorem after_stage_request {view : LineView} (h : 1 ≤ view.line.number) (call : LineCall)
    (staging : Staging) :
    (Staging.stage (view.request call)).after staging =
      if Staging.isWanted (view.request call) view.line.text then
        staging.recordLine (view.request call) view.line.text view.line.number
      else staging := by
  rw [Staging.after_stage, verdict_request h]
  cases Staging.isWanted (view.request call) view.line.text <;> rfl

theorem perform_eq {view : LineView} (h : 1 ≤ view.line.number) (call : LineCall)
    (staging : Staging) :
    view.perform call staging =
      .ok (Staging.isWanted (view.request call) view.line.text)
        ((Staging.stage (view.request call)).after staging) := by
  rw [Staging.after_stage, perform, Staging.stage_eq, verdict_request h]
  cases Staging.isWanted (view.request call) view.line.text <;> rfl

def key (view : LineView) : Key := .ofLine view.file view.line.number

theorem key_request (view : LineView) (call : LineCall) : (view.request call).key = view.key := by
  rw [Request.key_of_target_line (target_request view call), file_request, key]

/-- The requests that calls on a line make. -/
def requests (view : LineView) (calls : List LineCall) : List Request := calls.map view.request

theorem file_of_mem {file : Path} {content : Text} {view : LineView} (h : view ∈ ofFile file content) :
    view.file = file := by
  obtain ⟨line, -, rfl⟩ := List.mem_map.mp h
  rfl

theorem pairwise_ofFile (file : Path) (content : Text) :
    (ofFile file content).Pairwise fun v w => v.key ≠ w.key := by
  rw [ofFile, List.pairwise_map]
  refine (Line.pairwise_numberFrom 1 (content.pieces '\n')).imp fun hlt he => ?_
  have hnumber := congrArg Key.number he
  exact Nat.ne_of_lt hlt (Option.some.inj hnumber)

end LineView

namespace MemoryStore

variable {ν : Type}

/-- What a pass over the files fails with if no visit fails. -/
def unreadable? (store : MemoryStore) (files : List Path) : Option Failure :=
  files.findSome? fun file => (store.readFault? file).map (Failure.unreadable file)

/-- What a pass sees of the files, which is what those in front of the first unreadable one give. -/
def seen (store : MemoryStore) (views : Path → Text → List ν) (files : List Path) : List ν :=
  (files.takeWhile fun file => (store.readFault? file).isNone).flatMap fun file =>
    views file (store.textOf file)

theorem unreadable?_of_readable {store : MemoryStore} {files : List Path}
    (h : ∀ file ∈ files, store.readFault? file = none) : store.unreadable? files = none := by
  rw [unreadable?, List.findSome?_eq_none_iff]
  intro file hf
  rw [h file hf, Option.map_none]

theorem seen_of_readable {store : MemoryStore} {files : List Path}
    (h : ∀ file ∈ files, store.readFault? file = none) (views : Path → Text → List ν) :
    store.seen views files = files.flatMap fun file => views file (store.textOf file) := by
  rw [seen, List.takeWhile_eq_self_iff.mpr]
  exact fun file hf => Option.isNone_iff_eq_none.mpr (h file hf)

theorem mem_seen {store : MemoryStore} {views : Path → Text → List ν} {files : List Path} {view : ν}
    (h : view ∈ store.seen views files) : ∃ file ∈ files, view ∈ views file (store.textOf file) := by
  obtain ⟨file, hf, hv⟩ := List.mem_flatMap.mp h
  exact ⟨file, (List.takeWhile_sublist _).subset hf, hv⟩

/-- No line of distinct files is seen twice. -/
theorem pairwise_seen_lines {files : List Path} (hd : Path.Distinct files) (store : MemoryStore) :
    (store.seen LineView.ofFile files).Pairwise fun v w => v.key ≠ w.key := by
  rw [seen, List.pairwise_flatMap]
  refine ⟨fun file _ => LineView.pairwise_ofFile file _, ?_⟩
  refine List.Pairwise.imp ?_ (hd.sublist (List.takeWhile_sublist _))
  intro file other hne v hv w hw he
  have hfile := congrArg Key.file he
  rw [LineView.key, LineView.key, LineView.file_of_mem hv, LineView.file_of_mem hw] at hfile
  exact hne hfile

end MemoryStore

namespace Session

open MemoryStore (access)

variable {β κ ρ ν : Type}

theorem visitAll_append (perform : ν → κ → Action Staging ρ) (visit : ν → β → Script κ ρ β)
    (xs ys : List ν) (kept : Staging × β) :
    visitAll perform visit (xs ++ ys) kept =
      match visitAll perform visit xs kept with
      | .error failure kept => .error failure kept
      | .ok _ kept => visitAll perform visit ys kept := by
  induction xs generalizing kept with
  | nil => rfl
  | cons view rest ih =>
    simp only [List.cons_append, visitAll]
    cases (visit view kept.2).run (perform view) kept with
    | error failure kept => rfl
    | ok _ kept => exact ih kept

/-- A pass is one visit to all that is seen. -/
theorem pass_eq (views : Path → Text → List ν) (perform : ν → κ → Action Staging ρ)
    (visit : ν → β → Script κ ρ β) (files : List Path) (state : PassState MemoryStore β) :
    pass access views perform visit files state =
      match visitAll perform visit (state.store.seen views files) (state.staging, state.memo) with
      | .error failure kept => .error failure ⟨state.store, kept.1, kept.2⟩
      | .ok _ kept =>
        match state.store.unreadable? files with
        | some failure => .error failure ⟨state.store, kept.1, kept.2⟩
        | none => .ok () ⟨state.store, kept.1, kept.2⟩ := by
  induction files generalizing state with
  | nil => rfl
  | cons file rest ih =>
    rw [MemoryStore.seen, List.takeWhile_cons, MemoryStore.unreadable?, List.findSome?_cons]
    cases hf : state.store.readFault? file with
    | some fault => exact pass_of_readFault? views perform visit rest hf
    | none =>
      rw [pass_of_readable views perform visit rest hf]
      simp only [Option.isNone_none, if_true, List.flatMap_cons, visitAll_append, Option.map_none]
      cases visitAll perform visit (views file (state.store.textOf file))
          (state.staging, state.memo) with
      | error failure kept => rfl
      | ok _ kept => exact ih ⟨state.store, kept.1, kept.2⟩

/-- Visits that only stage requests and note something in the memo stage them in one run. -/
theorem visitAll_of_run {perform : ν → κ → Action Staging ρ} {visit : ν → β → Script κ ρ β}
    {requests : ν → List Request} {note : β → ν → β} {views : List ν}
    (h : ∀ view ∈ views, ∀ staging memo, (visit view memo).run (perform view) (staging, memo) =
      .ok () (Staging.stageAll (requests view) staging, note memo view))
    (staging : Staging) (memo : β) :
    visitAll perform visit views (staging, memo) =
      .ok () (Staging.stageAll (views.flatMap requests) staging, views.foldl note memo) := by
  induction views generalizing staging memo with
  | nil => rfl
  | cons view rest ih =>
    obtain ⟨hview, hrest⟩ := List.forall_mem_cons.mp h
    simp only [visitAll, hview]
    rw [ih hrest, List.flatMap_cons, Staging.stageAll_append, List.foldl_cons]

/-- A pass whose visits only stage requests. Files that cannot be read cut it off. -/
theorem pass_of_run {views : Path → Text → List ν} {perform : ν → κ → Action Staging ρ}
    {visit : ν → β → Script κ ρ β} {requests : ν → List Request} {note : β → ν → β}
    {store : MemoryStore} {files : List Path}
    (h : ∀ view ∈ store.seen views files, ∀ staging memo,
      (visit view memo).run (perform view) (staging, memo) =
        .ok () (Staging.stageAll (requests view) staging, note memo view))
    (staging : Staging) (memo : β) :
    pass access views perform visit files ⟨store, staging, memo⟩ =
      let seen := store.seen views files
      let after : PassState MemoryStore β :=
        ⟨store, Staging.stageAll (seen.flatMap requests) staging, seen.foldl note memo⟩
      match store.unreadable? files with
      | some failure => .error failure after
      | none => .ok () after := by
  rw [pass_eq, visitAll_of_run h]

/-- A pass that makes calls on files. -/
theorem filePass_calls (calls : FileView → List FileCall) (files : List Path)
    (state : PassState MemoryStore β) :
    filePass access (fun view => Script.calls (calls view)) files state =
      let views := state.store.seen FileView.ofFile files
      let after : PassState MemoryStore β :=
        ⟨state.store, Staging.stageAll (views.flatMap fun view => view.requests (calls view))
          state.staging, state.memo⟩
      match state.store.unreadable? files with
      | some failure => .error failure after
      | none => .ok () after := by
  have hrun : ∀ view ∈ state.store.seen FileView.ofFile files, ∀ (staging : Staging) (memo : β),
      (Script.calls (calls view) memo).run view.perform (staging, memo) =
        .ok () (Staging.stageAll (view.requests (calls view)) staging, memo) :=
    fun view _ staging memo =>
      Script.run_calls (fun call staging => ⟨(), view.perform_eq_after call staging⟩) _ memo staging memo
  have hpass := pass_of_run hrun state.staging state.memo
  simp only [List.foldl_fixed] at hpass
  exact hpass

/-- A pass that makes calls on lines. -/
theorem linePass_calls (calls : LineView → List LineCall) (files : List Path)
    (state : PassState MemoryStore β) :
    linePass access (fun view => Script.calls (calls view)) files state =
      let views := state.store.seen LineView.ofFile files
      let after : PassState MemoryStore β :=
        ⟨state.store, Staging.stageAll (views.flatMap fun view => view.requests (calls view))
          state.staging, state.memo⟩
      match state.store.unreadable? files with
      | some failure => .error failure after
      | none => .ok () after := by
  have hrun : ∀ view ∈ state.store.seen LineView.ofFile files, ∀ (staging : Staging) (memo : β),
      (Script.calls (calls view) memo).run view.perform (staging, memo) =
        .ok () (Staging.stageAll (view.requests (calls view)) staging, memo) := by
    intro view hv staging memo
    obtain ⟨file, -, hview⟩ := MemoryStore.mem_seen hv
    have hnumber := LineView.one_le_number_of_mem hview
    exact Script.run_calls (fun call staging => ⟨_, LineView.perform_eq hnumber call staging⟩) _ memo
      staging memo
  have hpass := pass_of_run hrun state.staging state.memo
  simp only [List.foldl_fixed] at hpass
  exact hpass

theorem after_linePass_calls (calls : LineView → List LineCall) (files : List Path)
    (state : PassState MemoryStore β) :
    (linePass access (fun view => Script.calls (calls view)) files).after state =
      ⟨state.store, Staging.stageAll ((state.store.seen LineView.ofFile files).flatMap fun view =>
        view.requests (calls view)) state.staging, state.memo⟩ := by
  rw [Action.after, linePass_calls]
  cases state.store.unreadable? files <;> rfl

end Session

end BulkEdit
