import BulkEdit.Proofs.Access.Memory
import BulkEdit.Proofs.Edit.Resolution
import BulkEdit.Session.Basic

/-!
# What stops a preview or a commit

For files in memory, whether a file can be previewed or committed is settled by the store, the ledger
and the file: it is read, then judged by the granularity of its edits, then written. A preview of many
files stops at the first that fails, and leaves the store as it is.
-/

namespace BulkEdit

namespace MemoryStore

/-- What a preview of a file fails with. -/
def previewFault? (store : MemoryStore) (ledger : Ledger) (file : Path) : Option Failure :=
  match store.readFault? file with
  | some fault => some (.unreadable file fault)
  | none => if ledger.isMixed file then some (.mixedGranularity file) else none

/-- What a commit of a file fails with. -/
def commitFault? (store : MemoryStore) (ledger : Ledger) (file : Path) : Option Failure :=
  match store.previewFault? ledger file with
  | some failure => some failure
  | none => if store.refusesWrite file then some (.unwritable file .injectedWrite) else none

theorem commitFault?_eq_none {store : MemoryStore} {ledger : Ledger} {file : Path}
    (hread : store.readFault? file = none) (hmixed : ¬ ledger.isMixed file = true)
    (hwrite : store.refusesWrite file = false) : store.commitFault? ledger file = none := by
  simp [commitFault?, previewFault?, hread, hmixed, hwrite]

end MemoryStore

namespace Session

open MemoryStore (access)

theorem resolve_eq (ledger : Ledger) (file : Path) (store : MemoryStore) :
    resolve access ledger file store =
      match store.previewFault? ledger file with
      | some failure => .error failure store
      | none => .ok (ledger.outcome file (store.textOf file),
          ledger.replayed file (store.textOf file)) store := by
  rw [MemoryStore.previewFault?]
  cases hf : store.readFault? file with
  | some fault =>
    have hr := MemoryStore.read_of_readFault? hf
    simp [resolve, access, bind, EStateM.bind, hr]
  | none =>
    have hr := MemoryStore.read_of_readable hf
    by_cases hm : ledger.isMixed file = true
    · simp [resolve, access, bind, EStateM.bind, hr, Ledger.resolve_eq, hm]
      rfl
    · simp [resolve, access, bind, EStateM.bind, hr, Ledger.resolve_eq, hm]
      rfl

/-- What a preview reports of a file that it does not fail on. -/
def previewed (ledger : Ledger) (store : MemoryStore) (file : Path) : Outcome :=
  { ledger.outcome file (store.textOf file) with
    content := some (ledger.replayed file (store.textOf file)) }

theorem previewFiles_eq (ledger : Ledger) (files : List Path) (store : MemoryStore) :
    previewFiles access ledger files store =
      match files.findSome? (store.previewFault? ledger) with
      | some failure => .error failure store
      | none => .ok (files.map (previewed ledger store)) store := by
  induction files with
  | nil => rfl
  | cons file rest ih =>
    simp only [previewFiles, bind, EStateM.bind, resolve_eq, List.findSome?_cons]
    cases hf : store.previewFault? ledger file with
    | some failure => rfl
    | none =>
      simp only [ih]
      cases rest.findSome? (store.previewFault? ledger) <;> rfl

end Session

end BulkEdit
