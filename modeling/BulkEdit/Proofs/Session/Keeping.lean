import BulkEdit.Plan.Staging
import BulkEdit.Proofs.Edit.Requests

/-!
# What sessions keep

A session touches its store only through its access. What finding and reading keep is kept by opening,
passes, staged plans and previews, and a commit keeps what its writes keep, each whether it fails or not.
-/

namespace BulkEdit

variable {σ α β κ ρ ν : Type} {P : σ → Prop}

theorem bind_ok {ε : Type} {action : EStateM ε σ α} {next : α → EStateM ε σ β} {state later : σ}
    {answer : β} (h : (action >>= next) state = .ok answer later) :
    ∃ first between, action state = .ok first between ∧ next first between = .ok answer later := by
  simp only [bind, EStateM.bind] at h
  split at h
  next first between haction => exact ⟨first, between, haction, h⟩
  next => cases h

namespace Action

/-- What an action answers, if it does not fail. -/
def answer? (action : Action σ α) (state : σ) : Option α :=
  match action state with
  | .ok answer _ => some answer
  | .error _ _ => none

theorem eq_ok_iff {action : Action σ α} {state later : σ} {answer : α} :
    action state = .ok answer later ↔
      action.answer? state = some answer ∧ action.after state = later := by
  rw [answer?, after]
  cases action state <;> simp

/-- That an action keeps a property of the state, whether it fails or not. -/
def Keeps (action : Action σ α) (P : σ → Prop) : Prop := ∀ state, P state → P (action.after state)

theorem keeps_pure (answer : α) : Keeps (pure answer : Action σ α) P := fun _ h => h

theorem keeps_throw (failure : Failure) : Keeps (throw failure : Action σ α) P := fun _ h => h

theorem after_of_ok {action : Action σ α} {state later : σ} {answer : α}
    (h : action state = .ok answer later) : action.after state = later := by
  rw [after, h]

theorem after_of_error {action : Action σ α} {state later : σ} {failure : Failure}
    (h : action state = .error failure later) : action.after state = later := by
  rw [after, h]

theorem get_eq (state : σ) : (get : Action σ σ) state = .ok state state := rfl

theorem keeps_bind {action : Action σ α} {next : α → Action σ β} (h : Keeps action P)
    (hnext : ∀ answer, Keeps (next answer) P) : Keeps (action >>= next) P := by
  intro state hs
  have hafter := h state hs
  cases hrun : action state with
  | error failure later =>
    rw [after_of_error hrun] at hafter
    simpa only [after, bind, EStateM.bind, hrun] using hafter
  | ok answer later =>
    rw [after_of_ok hrun] at hafter
    simpa only [after, bind, EStateM.bind, hrun] using hnext answer later hafter

end Action

namespace Session

variable {access : Access σ}

theorem keeps_ofPatterns {patterns : List Text} (hfind : (access.find patterns).Keeps P) :
    (ofPatterns access patterns).Keeps P := by
  refine Action.keeps_bind hfind fun found => ?_
  dsimp only
  split
  · exact Action.keeps_throw _
  · exact Action.keeps_pure _

/-- A session that has just been opened has no edits. -/
theorem staging_of_ofPatterns {patterns : List Text} {store opened : σ} {session : Session}
    (h : ofPatterns access patterns store = .ok session opened) : session.staging = .empty := by
  obtain ⟨found, between, -, h⟩ := bind_ok h
  dsimp only at h
  split at h
  · cases h
  · cases h
    rfl

/-- Where the same files are found, the same session is opened. -/
theorem ofPatterns_of_find {patterns : List Text} {store opened done : σ} {session : Session}
    (h : ofPatterns access patterns store = .ok session opened)
    (hfind : ∀ found, access.find patterns store = .ok found opened →
      access.find patterns done = .ok found done) :
    ofPatterns access patterns done = .ok session done := by
  obtain ⟨found, between, hfound, h⟩ := bind_ok h
  dsimp only at h
  split at h
  · cases h
  next hne =>
    cases h
    simp only [ofPatterns, bind, EStateM.bind, hfind found hfound, if_neg hne]
    rfl

theorem keeps_resolve {file : Path} (hread : (access.read file).Keeps P) (ledger : Ledger) :
    (resolve access ledger file).Keeps P := by
  refine Action.keeps_bind hread fun content => ?_
  split
  · exact Action.keeps_throw _
  · exact Action.keeps_pure _

theorem keeps_previewFiles (ledger : Ledger) {files : List Path}
    (hread : ∀ file ∈ files, (access.read file).Keeps P) :
    (previewFiles access ledger files).Keeps P := by
  induction files with
  | nil => exact Action.keeps_pure _
  | cons file rest ih =>
    obtain ⟨hfile, hrest⟩ := List.forall_mem_cons.mp hread
    exact Action.keeps_bind (keeps_resolve hfile ledger) fun _ =>
      Action.keeps_bind (ih hrest) fun _ => Action.keeps_pure _

theorem keeps_preview {session : Session}
    (hread : ∀ file ∈ session.files, (access.read file).Keeps P) :
    (session.preview access).Keeps P :=
  Action.keeps_bind (keeps_previewFiles _ hread) fun _ => Action.keeps_pure _

theorem keeps_commitFiles (ledger : Ledger) {files : List Path}
    (hread : ∀ file ∈ files, (access.read file).Keeps P)
    (hwrite : ∀ file ∈ files, ∀ text, (access.write file text).Keeps P) :
    (commitFiles access ledger files).Keeps P := by
  induction files with
  | nil => exact Action.keeps_pure _
  | cons file rest ih =>
    obtain ⟨hreadFile, hreadRest⟩ := List.forall_mem_cons.mp hread
    obtain ⟨hwriteFile, hwriteRest⟩ := List.forall_mem_cons.mp hwrite
    exact Action.keeps_bind (keeps_resolve hreadFile ledger) fun resolved =>
      Action.keeps_bind (hwriteFile resolved.2) fun _ =>
        Action.keeps_bind (ih hreadRest hwriteRest) fun _ => Action.keeps_pure _

theorem keeps_commit {session : Session}
    (hread : ∀ file ∈ session.files, (access.read file).Keeps P)
    (hwrite : ∀ file ∈ session.files, ∀ text, (access.write file text).Keeps P) :
    (session.commit access).Keeps P :=
  Action.keeps_bind (keeps_commitFiles _ hread hwrite) fun _ => Action.keeps_pure _

/-- A pass changes the edits and the memo. Its store is only read. -/
theorem keeps_pass (views : Path → Text → List ν) (perform : ν → κ → Action Staging ρ)
    (visit : ν → β → Script κ ρ β) {files : List Path}
    (hread : ∀ file ∈ files, (access.read file).Keeps P) :
    (pass access views perform visit files).Keeps fun state => P state.store := by
  induction files with
  | nil => exact Action.keeps_pure _
  | cons file rest ih =>
    obtain ⟨hfile, hrest⟩ := List.forall_mem_cons.mp hread
    intro state hs
    have hafter := hfile state.store hs
    cases hrun : access.read file state.store with
    | error failure store =>
      rw [Action.after_of_error hrun] at hafter
      simpa only [Action.after, pass, hrun] using hafter
    | ok content store =>
      rw [Action.after_of_ok hrun] at hafter
      cases hvisit : visitAll perform visit (views file content) (state.staging, state.memo) with
      | error failure kept => simpa only [Action.after, pass, hrun, hvisit] using hafter
      | ok _ kept =>
        simpa only [Action.after, pass, hrun, hvisit] using
          ih hrest ⟨store, kept.1, kept.2⟩ hafter

/-- A pass of a caller, over files or over lines. -/
inductive Pass (β : Type) where
  | files (visit : FileView → β → Script FileCall Unit β)
  | lines (visit : LineView → β → Script LineCall Bool β)

namespace Pass

def run (access : Access σ) (files : List Path) : Pass β → Action (PassState σ β) Unit
  | .files visit => filePass access visit files
  | .lines visit => linePass access visit files

theorem keeps_run {files : List Path} (hread : ∀ file ∈ files, (access.read file).Keeps P)
    (pass : Pass β) : (pass.run access files).Keeps fun state => P state.store := by
  cases pass with
  | files visit => exact keeps_pass _ _ visit hread
  | lines visit => exact keeps_pass _ _ visit hread

end Pass

/-- The state after passes of a session, whether they fail or not. -/
def afterPasses (access : Access σ) (session : Session) (passes : List (Pass β))
    (state : PassState σ β) : PassState σ β :=
  passes.foldl (fun state pass => (pass.run access session.files).after state) state

theorem store_afterPasses {session : Session}
    (hread : ∀ file ∈ session.files, (access.read file).Keeps P) (passes : List (Pass β))
    {state : PassState σ β} (h : P state.store) :
    P (session.afterPasses access passes state).store := by
  induction passes generalizing state with
  | nil => exact h
  | cons pass rest ih => exact ih (Pass.keeps_run hread pass state h)

end Session

namespace Plan

variable {access : Access σ} (plan : Plan)

/-- What a staged plan comes from. -/
theorem exists_passes_of_stage {store later : σ} {staged : Staged}
    (h : plan.stage access store = .ok staged later) :
    ∃ (session : Session) (opened : σ) (state : Session.PassState σ Tally),
      Session.ofPatterns access plan.patterns store = .ok session opened ∧
      plan.passes access session.files ⟨opened, session.staging, []⟩ = .ok () state ∧
      staged = ⟨⟨session.files, state.staging⟩, plan.ruleCounts state.memo⟩ ∧
      later = state.store := by
  rw [stage] at h
  split at h
  next => cases h
  next session opened hopen =>
    split at h
    next => cases h
    next state hpasses =>
      cases h
      exact ⟨session, opened, state, hopen, hpasses, rfl, rfl⟩

theorem keeps_runPass (rules : List (Rule × Nat)) {pass : Action (Session.PassState σ Tally) Unit}
    {Q : Session.PassState σ Tally → Prop} (h : pass.Keeps Q) : (runPass rules pass).Keeps Q := by
  rw [runPass]
  split
  · exact Action.keeps_pure _
  · exact h

theorem keeps_passes {files : List Path} (hread : ∀ file ∈ files, (access.read file).Keeps P) :
    (plan.passes access files).Keeps fun state => P state.store :=
  Action.keeps_bind (keeps_runPass _ (Session.keeps_pass _ _ _ hread)) fun _ =>
    keeps_runPass _ (Session.keeps_pass _ _ _ hread)

theorem keeps_stage (hfind : (access.find plan.patterns).Keeps P)
    (hread : ∀ file, (access.read file).Keeps P) : (plan.stage access).Keeps P := by
  intro store hs
  have hopen := Session.keeps_ofPatterns hfind store hs
  cases hrun : Session.ofPatterns access plan.patterns store with
  | error failure later =>
    rw [Action.after_of_error hrun] at hopen
    simpa only [Action.after, stage, hrun] using hopen
  | ok session later =>
    rw [Action.after_of_ok hrun] at hopen
    have hpasses := plan.keeps_passes (fun file (_ : file ∈ session.files) => hread file)
      ⟨later, session.staging, []⟩ hopen
    cases hstate : plan.passes access session.files ⟨later, session.staging, []⟩ with
    | error failure state =>
      rw [Action.after_of_error hstate] at hpasses
      simpa only [Action.after, stage, hrun, hstate] using hpasses
    | ok _ state =>
      rw [Action.after_of_ok hstate] at hpasses
      simpa only [Action.after, stage, hrun, hstate] using hpasses

end Plan

end BulkEdit
