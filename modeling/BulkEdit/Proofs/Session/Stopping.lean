import BulkEdit.Proofs.Session.Visits

/-!
# Where a pass stops

A pass goes through files and lines in order and stops at the first visit that fails, or at the first
file that cannot be read. What was staged by then stays, and it is the start of what the pass would have
staged. To tell which visits a pass makes, they are made to keep notes. Nothing else changes by that.
-/

namespace BulkEdit

variable {κ ρ β ν : Type}

/-- What is done on a visit: the calls in order, and the failure that ends them if there is one. -/
structure Visit (ν κ : Type) where
  view : ν
  calls : List κ
  failure? : Option Failure
  deriving DecidableEq, Repr

namespace Visit

/-- The requests that visits make. -/
def requests (request : ν → κ → Request) (visits : List (Visit ν κ)) : List Request :=
  visits.flatMap fun visit => visit.calls.map (request visit.view)

/-- What visits fail with. -/
def failed? (visits : List (Visit ν κ)) : Option Failure := visits.findSome? Visit.failure?

/-- Visits to views in order that end with the first that fails. -/
inductive InTurn : List ν → List (Visit ν κ) → Prop
  | done : InTurn [] []
  | failed (view : ν) (rest : List ν) (calls : List κ) (failure : Failure) :
    InTurn (view :: rest) [⟨view, calls, some failure⟩]
  | next (view : ν) {rest : List ν} (calls : List κ) {visits : List (Visit ν κ)} :
    InTurn rest visits → InTurn (view :: rest) (⟨view, calls, none⟩ :: visits)

namespace InTurn

variable {views : List ν} {visits : List (Visit ν κ)}

theorem isPrefix (h : InTurn views visits) : visits.map Visit.view <+: views := by
  induction h with
  | done => exact List.prefix_rfl
  | failed view rest calls failure => exact List.prefix_append [view] rest
  | next view calls _ ih => exact List.cons_prefix_cons.mpr ⟨rfl, ih⟩

theorem only_last_fails (h : InTurn views visits) :
    ∀ visit ∈ visits.dropLast, visit.failure? = none := by
  induction h with
  | done => exact List.forall_mem_nil _
  | failed view rest calls failure => exact List.forall_mem_nil _
  | @next view rest calls visits _ ih =>
    cases visits with
    | nil => exact List.forall_mem_nil _
    | cons visit others => exact List.forall_mem_cons.mpr ⟨rfl, ih⟩

theorem complete (h : InTurn views visits) (hnone : failed? visits = none) :
    visits.map Visit.view = views := by
  induction h with
  | done => rfl
  | failed view rest calls failure => cases hnone
  | next view calls _ ih => rw [List.map_cons, ih hnone]

end InTurn

end Visit

namespace Script

/-- Does what the script does, and adds it to the notes at the end. `made` are the calls so far. -/
def noting (view : ν) (notes : List (Visit ν κ)) (made : List κ) :
    Script κ ρ β → Script κ ρ (List (Visit ν κ) × β)
  | .done memo => .done (notes ++ [⟨view, made, none⟩], memo)
  | .fail failure memo => .fail failure (notes ++ [⟨view, made, some failure⟩], memo)
  | .call input next => .call input fun reply => (next reply).noting view notes (made ++ [input])

/-- Makes the calls of the script and then succeeds. -/
def unfailing : Script κ ρ β → Script κ ρ β
  | .done memo => .done memo
  | .fail _ memo => .done memo
  | .call input next => .call input fun reply => (next reply).unfailing

theorem trace_noting (reply : κ → ρ) (script : Script κ ρ β) (view : ν) (notes : List (Visit ν κ))
    (made : List κ) :
    (script.noting view notes made).trace reply =
      let trace := script.trace reply
      ⟨trace.calls, trace.failure?,
        (notes ++ [⟨view, made ++ trace.calls, trace.failure?⟩], trace.memo)⟩ := by
  induction script generalizing made with
  | done memo => simp only [noting, trace, List.append_nil]
  | fail failure memo => simp only [noting, trace, List.append_nil]
  | call input next ih => simp only [noting, trace, ih, List.append_assoc, List.singleton_append]

theorem trace_unfailing (reply : κ → ρ) (script : Script κ ρ β) :
    script.unfailing.trace reply = { script.trace reply with failure? := none } := by
  induction script with
  | done memo => rfl
  | fail failure memo => rfl
  | call input next ih => simp only [unfailing, trace, ih]

end Script

namespace MemoryStore

/-- The store with no reads made to fail. -/
def repaired (store : MemoryStore) : MemoryStore := { store with failingReads := [] }

theorem get?_repaired (store : MemoryStore) (file : Path) :
    store.repaired.get? file = store.get? file := rfl

theorem readFault?_repaired {store : MemoryStore} {file : Path} (h : store.readFault? file = none) :
    store.repaired.readFault? file = none := by
  refine readFault?_of_isSome ?_ rfl
  rw [get?_repaired, get?_of_readable h, Option.isSome_some]

/-- What can be seen of files can be seen of them if no reads are made to fail. -/
theorem seen_isPrefix_repaired (store : MemoryStore) (views : Path → Text → List ν)
    (files : List Path) : store.seen views files <+: store.repaired.seen views files := by
  induction files with
  | nil => exact List.prefix_rfl
  | cons file rest ih =>
    simp only [seen, List.takeWhile_cons]
    cases hread : store.readFault? file with
    | some fault => exact List.nil_prefix
    | none =>
      rw [readFault?_repaired hread]
      exact (List.prefix_append_right_inj (views file (store.textOf file))).mpr ih

end MemoryStore

namespace Session

open MemoryStore (access)

/-- The visits with their notes, which are kept beside the memo. -/
def noting (visit : ν → β → Script κ ρ β) (view : ν) (memo : List (Visit ν κ) × β) :
    Script κ ρ (List (Visit ν κ) × β) :=
  (visit view memo.2).noting view memo.1 []

def unfailing (visit : ν → β → Script κ ρ β) (view : ν) (memo : β) : Script κ ρ β :=
  (visit view memo).unfailing

/-- The visits that are made to views in order. -/
def visits (reply : ν → κ → ρ) (visit : ν → β → Script κ ρ β) : List ν → β → List (Visit ν κ)
  | [], _ => []
  | view :: rest, memo =>
    let trace := (visit view memo).trace (reply view)
    ⟨view, trace.calls, trace.failure?⟩ ::
      match trace.failure? with
      | some _ => []
      | none => visits reply visit rest trace.memo

section Visits

variable (reply : ν → κ → ρ) (visit : ν → β → Script κ ρ β) (views : List ν) (memo : β)

theorem inTurn_visits : Visit.InTurn views (visits reply visit views memo) := by
  induction views generalizing memo with
  | nil => exact .done
  | cons view rest ih =>
    rw [visits]
    cases ((visit view memo).trace (reply view)).failure? with
    | some failure => exact .failed view rest _ failure
    | none => exact .next view _ (ih _)

theorem requests_traceAll (request : ν → κ → Request) :
    ((traceAll reply visit views memo).calls.map fun call => request call.1 call.2) =
      Visit.requests request (visits reply visit views memo) := by
  induction views generalizing memo with
  | nil => rfl
  | cons view rest ih =>
    rw [traceAll, visits, Visit.requests, List.flatMap_cons]
    cases ((visit view memo).trace (reply view)).failure? with
    | some failure => simp
    | none =>
      simp only [List.map_append, ih, List.map_map]
      rfl

theorem failure?_traceAll :
    (traceAll reply visit views memo).failure? = Visit.failed? (visits reply visit views memo) := by
  induction views generalizing memo with
  | nil => rfl
  | cons view rest ih =>
    rw [traceAll, visits, Visit.failed?, List.findSome?_cons]
    cases ((visit view memo).trace (reply view)).failure? with
    | some failure => rfl
    | none => exact ih _

/-- Visits that keep notes do what they do without, and note just this. -/
theorem traceAll_noting (notes : List (Visit ν κ)) :
    traceAll reply (noting visit) views (notes, memo) =
      let trace := traceAll reply visit views memo
      ⟨trace.calls, trace.failure?, (notes ++ visits reply visit views memo, trace.memo)⟩ := by
  induction views generalizing notes memo with
  | nil => simp only [traceAll, visits, List.append_nil]
  | cons view rest ih =>
    simp only [traceAll, visits, noting, Script.trace_noting, List.nil_append]
    cases ((visit view memo).trace (reply view)).failure? with
    | some failure => rfl
    | none => simp only [ih, List.append_assoc, List.singleton_append]

theorem failure?_unfailing : (traceAll reply (unfailing visit) views memo).failure? = none := by
  induction views generalizing memo with
  | nil => rfl
  | cons view rest ih =>
    rw [traceAll, unfailing, Script.trace_unfailing]
    exact ih _

/-- Up to the first failure the calls are those that are made if there are no failures. -/
theorem calls_isPrefix_unfailing (more : List ν) :
    (traceAll reply visit views memo).calls <+:
      (traceAll reply (unfailing visit) (views ++ more) memo).calls := by
  induction views generalizing memo with
  | nil => exact List.nil_prefix
  | cons view rest ih =>
    rw [List.cons_append, traceAll, traceAll, unfailing, Script.trace_unfailing]
    cases ((visit view memo).trace (reply view)).failure? with
    | some failure => exact List.prefix_append _ _
    | none => exact (List.prefix_append_right_inj _).mpr (ih _)

end Visits

/-- How a pass goes that makes `visits` and leaves `after`, where `run` is the pass with any visits. -/
structure Course
    (run : ∀ {γ : Type}, (ν → γ → Script κ ρ γ) → List Path → Action (PassState MemoryStore γ) Unit)
    (views : Path → Text → List ν) (request : ν → κ → Request) (visit : ν → β → Script κ ρ β)
    (files : List Path) (state : PassState MemoryStore β) (visits : List (Visit ν κ))
    (after : PassState MemoryStore β) : Prop where
  /-- It ends with the first failure of a visit, or else with the first file that cannot be read. -/
  ends : run visit files state =
    Action.ending ((Visit.failed? visits).or (state.store.unreadable? files)) after
  /-- These are the visits, as they note it themselves. -/
  noted : run (noting visit) files ⟨state.store, state.staging, [], state.memo⟩ =
    Action.ending ((Visit.failed? visits).or (state.store.unreadable? files))
      ⟨after.store, after.staging, visits, after.memo⟩
  inOrder : visits.map Visit.view <+: state.store.seen views files
  onlyLastFails : ∀ visit ∈ visits.dropLast, visit.failure? = none
  complete : Visit.failed? visits = none → visits.map Visit.view = state.store.seen views files
  store : after.store = state.store
  ledger : after.staging.ledger =
    state.staging.ledger ++ Staging.recorded (Visit.requests request visits) state.staging
  /-- Had no visit failed and no read been made to fail, the ledger would go on from here. -/
  isPrefix : ∃ whole,
    run (unfailing visit) files { state with store := state.store.repaired } =
      Action.ending (state.store.repaired.unreadable? files) whole ∧
    after.staging.ledger <+: whole.staging.ledger

/-- A pass in which every call gets its reply goes that way. -/
theorem exists_course {views : Path → Text → List ν} {perform : ν → κ → Action Staging ρ}
    {request : ν → κ → Request} {reply : ν → κ → ρ}
    (h : ∀ file content, ∀ view ∈ views file content, ∀ input staging, perform view input staging =
      .ok (reply view input) ((Staging.stage (request view input)).after staging))
    (visit : ν → β → Script κ ρ β) (files : List Path) (state : PassState MemoryStore β) :
    ∃ visits after, Course (pass access views perform) views request visit files state visits after := by
  have hseen : ∀ store : MemoryStore, ∀ view ∈ store.seen views files, ∀ input staging,
      perform view input staging =
        .ok (reply view input) ((Staging.stage (request view input)).after staging) := by
    intro store view hv
    obtain ⟨file, -, hview⟩ := MemoryStore.mem_seen hv
    exact h file _ view hview
  obtain ⟨store, staging, memo⟩ := state
  let seen := store.seen views files
  let trace := traceAll reply visit seen memo
  let requests := Visit.requests request (visits reply visit seen memo)
  have hturn : Visit.InTurn seen (visits reply visit seen memo) := inTurn_visits reply visit seen memo
  refine ⟨visits reply visit seen memo, ⟨store, Staging.stageAll requests staging, trace.memo⟩,
    ?ends, ?noted, hturn.isPrefix, hturn.only_last_fails, hturn.complete, rfl,
    Staging.ledger_stageAll requests staging, ?isPrefix⟩
  case ends =>
    rw [pass_eq_ending (hseen store)]
    simp only [failure?_traceAll, requests_traceAll]
    rfl
  case noted =>
    rw [pass_eq_ending (hseen store)]
    simp only [traceAll_noting, failure?_traceAll, requests_traceAll, List.nil_append]
    rfl
  case isPrefix =>
    let whole := traceAll reply (unfailing visit) (store.repaired.seen views files) memo
    obtain ⟨more, hmore⟩ := store.seen_isPrefix_repaired views files
    have hcalls := calls_isPrefix_unfailing reply visit seen memo more
    rw [hmore] at hcalls
    have hrequests := hcalls.map fun call => request call.1 call.2
    rw [requests_traceAll] at hrequests
    refine ⟨⟨store.repaired, _, whole.memo⟩, ?_, Staging.ledger_stageAll_isPrefix hrequests staging⟩
    rw [pass_eq_ending (hseen store.repaired)]
    simp only [failure?_unfailing, Option.none_or]
    rfl

/-- A pass visits in order up to the first failure, with which it ends. It leaves the store and adds the
edits of its calls to the ledger, which is a prefix of what it adds if nothing is made to fail. No call
is refused. -/
theorem failing_pass_keeps_prefix (session : Session) (store : MemoryStore) (memo : β) :
    (∀ visit : FileView → β → Script FileCall Unit β, ∃ visits after,
      Course (filePass access) FileView.ofFile FileView.request visit session.files
        (session.start store memo) visits after) ∧
    (∀ visit : LineView → β → Script LineCall Bool β, ∃ visits after,
      Course (linePass access) LineView.ofFile LineView.request visit session.files
        (session.start store memo) visits after) ∧
    (∀ (view : FileView) (call : FileCall) (staging : Staging),
      ∃ later, view.perform call staging = .ok () later) ∧
    ∀ (file : Path) (content : Text), ∀ view ∈ LineView.ofFile file content,
      ∀ (call : LineCall) (staging : Staging), ∃ reply later,
        view.perform call staging = .ok reply later := by
  have hfile : ∀ file content, ∀ view ∈ FileView.ofFile file content, ∀ call staging,
      view.perform call staging = .ok () ((Staging.stage (view.request call)).after staging) :=
    fun file content view _ => view.perform_eq_after
  have hline : ∀ file content, ∀ view ∈ LineView.ofFile file content, ∀ call staging,
      view.perform call staging = .ok (Staging.isWanted (view.request call) view.line.text)
        ((Staging.stage (view.request call)).after staging) :=
    fun file content view hv => LineView.perform_eq (LineView.one_le_number_of_mem hv)
  refine ⟨fun visit => ?_, fun visit => ?_, fun view call staging => ?_, ?_⟩
  · exact exists_course hfile visit session.files (session.start store memo)
  · exact exists_course hline visit session.files (session.start store memo)
  · exact ⟨_, view.perform_eq call staging⟩
  · intro file content view hv call staging
    exact ⟨_, _, hline file content view hv call staging⟩

/-- The first line is edited twice and visited once. The second visit fails after a call in vain. There
is no third, and the missing file is never read. -/
example :
    let a : Path := ⟨['a']⟩
    let content : Text := ['x', '\n', 'y', '\n', 'x']
    let store := MemoryStore.empty.set a content
    let visit : LineView → Unit → Script LineCall Bool Unit := fun view memo =>
      .call (.replace ['x'] ['x', 'y'] false) fun found =>
        if found then .call (.replace ['x'] ['z'] true) fun _ => .done memo
        else .fail (.mixedGranularity view.file) memo
    linePass access (noting visit) [a, ⟨['b']⟩] ⟨store, .empty, [], ()⟩ =
      .error (.mixedGranularity a)
        ⟨store,
          ⟨[⟨a, .line 1, .first, ['x'], ['x', 'y']⟩, ⟨a, .line 1, .every, ['x', 'y'], ['z', 'y']⟩],
            [⟨a, 1, ['z', 'y']⟩]⟩,
          [⟨⟨a, content, ⟨1, ['x']⟩⟩,
              [.replace ['x'] ['x', 'y'] false, .replace ['x'] ['z'] true], none⟩,
            ⟨⟨a, content, ⟨2, ['y']⟩⟩,
              [.replace ['x'] ['x', 'y'] false], some (.mixedGranularity a)⟩],
          ()⟩ := rfl

end Session

end BulkEdit
