import BulkEdit.Proofs.Session.Passes

/-!
# What is called in a pass

Whatever a caller does on its visits, and wherever it fails, a pass stages the calls that it makes, one
after the other. What a call is answered is settled by the call and by what is visited, so that the calls
of a pass can be told without what has been staged.
-/

namespace BulkEdit

variable {κ ρ β ν : Type}

/-- How an action ends that leaves `state`, with a failure or without. -/
def Action.ending {σ : Type} (failure? : Option Failure) (state : σ) : EStateM.Result Failure σ Unit :=
  match failure? with
  | some failure => .error failure state
  | none => .ok () state

theorem Action.after_of_ending {σ : Type} {action : Action σ Unit} {failure? : Option Failure}
    {state later : σ} (h : action state = ending failure? later) : action.after state = later := by
  rw [after, h]
  cases failure? <;> rfl

/-- What comes of scripts: the calls that are made in order, the failure that ends them if there is one,
and the memo. -/
structure Script.Trace (κ β : Type) where
  calls : List κ
  failure? : Option Failure
  memo : β

namespace Script

/-- What a script does if every call gets its reply. -/
def trace (reply : κ → ρ) : Script κ ρ β → Trace κ β
  | .done memo => ⟨[], none, memo⟩
  | .fail failure memo => ⟨[], some failure, memo⟩
  | .call input next =>
    let rest := (next (reply input)).trace reply
    { rest with calls := input :: rest.calls }

theorem run_eq {perform : κ → Action Staging ρ} {request : κ → Request} {reply : κ → ρ}
    (h : ∀ input staging,
      perform input staging = .ok (reply input) ((Staging.stage (request input)).after staging))
    (script : Script κ ρ β) (staging : Staging) (ignored : β) :
    script.run perform (staging, ignored) =
      let trace := script.trace reply
      let after := (Staging.stageAll (trace.calls.map request) staging, trace.memo)
      match trace.failure? with
      | some failure => .error failure after
      | none => .ok () after := by
  induction script generalizing staging with
  | done memo => rfl
  | fail failure memo => rfl
  | call input next ih =>
    simp only [run, h]
    exact ih (reply input) _

end Script

namespace Session

open MemoryStore (access)

/-- What visits in order do, up to the first that fails. Each call is told with what was visited. -/
def traceAll (reply : ν → κ → ρ) (visit : ν → β → Script κ ρ β) :
    List ν → β → Script.Trace (ν × κ) β
  | [], memo => ⟨[], none, memo⟩
  | view :: rest, memo =>
    let first := (visit view memo).trace (reply view)
    let calls := first.calls.map (view, ·)
    match first.failure? with
    | some failure => ⟨calls, some failure, first.memo⟩
    | none =>
      let later := traceAll reply visit rest first.memo
      { later with calls := calls ++ later.calls }

theorem visitAll_eq {perform : ν → κ → Action Staging ρ} {request : ν → κ → Request}
    {reply : ν → κ → ρ} {views : List ν}
    (h : ∀ view ∈ views, ∀ input staging, perform view input staging =
      .ok (reply view input) ((Staging.stage (request view input)).after staging))
    (visit : ν → β → Script κ ρ β) (staging : Staging) (memo : β) :
    visitAll perform visit views (staging, memo) =
      let trace := traceAll reply visit views memo
      let after := (Staging.stageAll (trace.calls.map fun call => request call.1 call.2) staging,
        trace.memo)
      match trace.failure? with
      | some failure => .error failure after
      | none => .ok () after := by
  induction views generalizing staging memo with
  | nil => rfl
  | cons view rest ih =>
    obtain ⟨hview, hrest⟩ := List.forall_mem_cons.mp h
    simp only [visitAll, traceAll, Script.run_eq hview]
    cases ((visit view memo).trace (reply view)).failure? with
    | some failure =>
      simp only [List.map_map]
      rfl
    | none =>
      simp only [ih hrest, List.map_append, List.map_map, Staging.stageAll_append]
      rfl

section Pass

variable {perform : ν → κ → Action Staging ρ} {request : ν → κ → Request} {reply : ν → κ → ρ}
  {views : Path → Text → List ν} {files : List Path} {state : PassState MemoryStore β}

/-- A pass stages the calls of its visits and ends with the failure of a visit. If there is none, it ends
with the first file that cannot be read. -/
theorem pass_eq_ending
    (h : ∀ view ∈ state.store.seen views files, ∀ input staging, perform view input staging =
      .ok (reply view input) ((Staging.stage (request view input)).after staging))
    (visit : ν → β → Script κ ρ β) :
    pass access views perform visit files state =
      let trace := traceAll reply visit (state.store.seen views files) state.memo
      Action.ending (trace.failure?.or (state.store.unreadable? files))
        ⟨state.store, Staging.stageAll (trace.calls.map fun call => request call.1 call.2) state.staging,
          trace.memo⟩ := by
  simp only [pass_eq, visitAll_eq h]
  cases (traceAll reply visit (state.store.seen views files) state.memo).failure? with
  | some failure => rfl
  | none => cases state.store.unreadable? files <;> rfl

/-- What a pass leaves, also if it fails or a file cannot be read. -/
theorem after_pass
    (h : ∀ view ∈ state.store.seen views files, ∀ input staging, perform view input staging =
      .ok (reply view input) ((Staging.stage (request view input)).after staging))
    (visit : ν → β → Script κ ρ β) :
    (pass access views perform visit files).after state =
      let trace := traceAll reply visit (state.store.seen views files) state.memo
      ⟨state.store, Staging.stageAll (trace.calls.map fun call => request call.1 call.2) state.staging,
        trace.memo⟩ :=
  Action.after_of_ending (pass_eq_ending h visit)

end Pass

/-- The calls of a pass over files. None of them is answered anything. -/
def fileTrace (visit : FileView → β → Script FileCall Unit β) (files : List Path)
    (state : PassState MemoryStore β) : Script.Trace (FileView × FileCall) β :=
  traceAll (fun _ _ => ()) visit (state.store.seen FileView.ofFile files) state.memo

theorem after_filePass (files : List Path) (state : PassState MemoryStore β)
    (visit : FileView → β → Script FileCall Unit β) :
    (filePass access visit files).after state =
      let trace := fileTrace visit files state
      ⟨state.store, Staging.stageAll (trace.calls.map fun call => call.1.request call.2) state.staging,
        trace.memo⟩ :=
  after_pass (fun view _ => view.perform_eq_after) visit

end Session

end BulkEdit
