import BulkEdit.Proofs.Edit.Requests
import BulkEdit.Proofs.Session.Faults
import BulkEdit.Proofs.Session.Opening

/-!
# Moves before a commit

What a caller can do with a session on files in memory before it is committed, in any order and number:
passes, which may fail, previews, and changes of files from outside. Only the last change the store.
-/

namespace BulkEdit.Session

open MemoryStore (access)

variable {β κ ρ ν : Type}

inductive Move (β : Type) where
  | filePass (visit : FileView → β → Script FileCall Unit β)
  | linePass (visit : LineView → β → Script LineCall Bool β)
  | preview
  | set (file : Path) (text : Text)

namespace Move

/-- The state after a move in a session with these files. What a pass that fails has staged stays. -/
def play (files : List Path) (state : PassState MemoryStore β) : Move β → PassState MemoryStore β
  | filePass visit => (Session.filePass access visit files).after state
  | linePass visit => (Session.linePass access visit files).after state
  | preview => { state with store := (Session.preview access ⟨files, state.staging⟩).after state.store }
  | set file text => { state with store := state.store.set file text }

/-- What a move does to a store from outside of the session. -/
def setFrom (store : MemoryStore) : Move β → MemoryStore
  | set file text => store.set file text
  | _ => store

end Move

/-- A session that has just been opened, with the memo that its passes share. -/
def start (session : Session) (store : MemoryStore) (memo : β) : PassState MemoryStore β :=
  ⟨store, session.staging, memo⟩

def playAll (session : Session) (moves : List (Move β)) (state : PassState MemoryStore β) :
    PassState MemoryStore β :=
  moves.foldl (Move.play session.files) state

section Pass

variable (views : Path → Text → List ν) (perform : ν → κ → Action Staging ρ)
  (visit : ν → β → Script κ ρ β) {file : Path} (rest : List Path) {state : PassState MemoryStore β}

theorem pass_of_readFault? {fault : StoreFault} (h : state.store.readFault? file = some fault) :
    pass access views perform visit (file :: rest) state =
      .error (.unreadable file fault) state := by
  have hr : access.read file state.store = _ := MemoryStore.read_of_readFault? h
  simp only [pass, hr]

theorem pass_of_readable (h : state.store.readFault? file = none) :
    pass access views perform visit (file :: rest) state =
      match visitAll perform visit (views file (state.store.textOf file))
        (state.staging, state.memo) with
      | .error failure kept => .error failure ⟨state.store, kept.1, kept.2⟩
      | .ok _ kept => pass access views perform visit rest ⟨state.store, kept.1, kept.2⟩ := by
  have hr : access.read file state.store = _ := MemoryStore.read_of_readable h
  simp only [pass, hr]
  cases visitAll perform visit (views file (state.store.textOf file)) (state.staging, state.memo) <;>
    rfl

theorem store_after_pass (files : List Path) (state : PassState MemoryStore β) :
    ((pass access views perform visit files).after state).store = state.store := by
  induction files generalizing state with
  | nil => rfl
  | cons file rest ih =>
    rw [Action.after]
    cases hf : state.store.readFault? file with
    | some fault => rw [pass_of_readFault? views perform visit rest hf]
    | none =>
      rw [pass_of_readable views perform visit rest hf]
      cases visitAll perform visit (views file (state.store.textOf file))
          (state.staging, state.memo) with
      | error failure kept => rfl
      | ok _ kept => exact ih ⟨state.store, kept.1, kept.2⟩

end Pass

theorem preview_eq (session : Session) (store : MemoryStore) :
    session.preview access store =
      match session.files.findSome? (store.previewFault? session.staging.ledger) with
      | some failure => .error failure store
      | none => .ok ⟨session.files.map (previewed session.staging.ledger store)⟩ store := by
  simp only [preview, bind, EStateM.bind, previewFiles_eq]
  cases session.files.findSome? (store.previewFault? session.staging.ledger) <;> rfl

theorem after_preview (session : Session) (store : MemoryStore) :
    (session.preview access).after store = store := by
  rw [Action.after, preview_eq]
  cases session.files.findSome? (store.previewFault? session.staging.ledger) <;> rfl

theorem store_play (files : List Path) (state : PassState MemoryStore β) (move : Move β) :
    (move.play files state).store = move.setFrom state.store := by
  cases move with
  | filePass visit => exact store_after_pass _ _ visit files state
  | linePass visit => exact store_after_pass _ _ visit files state
  | preview => exact after_preview ⟨files, state.staging⟩ state.store
  | set file text => rfl

/-- A store after moves is the store before them with the changes from outside. -/
theorem store_playAll (session : Session) (moves : List (Move β)) (state : PassState MemoryStore β) :
    (session.playAll moves state).store = moves.foldl Move.setFrom state.store := by
  induction moves generalizing state with
  | nil => rfl
  | cons move rest ih =>
    rw [List.foldl_cons, ← store_play session.files state move]
    exact ih (move.play session.files state)

/-- What changes from outside keep, all moves keep. -/
theorem store_playAll_induction {P : MemoryStore → Prop}
    (hset : ∀ store file text, P store → P (store.set file text)) (session : Session)
    (moves : List (Move β)) {state : PassState MemoryStore β} (h : P state.store) :
    P (session.playAll moves state).store := by
  rw [store_playAll]
  refine List.foldlRecOn moves Move.setFrom h fun store hs move _ => ?_
  cases move with
  | set file text => exact hset store file text hs
  | filePass visit => exact hs
  | linePass visit => exact hs
  | preview => exact hs

end BulkEdit.Session
