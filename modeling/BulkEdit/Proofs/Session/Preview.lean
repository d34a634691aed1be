import BulkEdit.Proofs.Session.Commit
import Mathlib.Data.List.TakeWhile

/-!
# What a preview foretells

A preview reads every file from one store, while a commit reads each file after others have been
written. As the files of a session differ, both see the same contents and stop at the same file.
-/

namespace BulkEdit.Session

open MemoryStore (access)

/-- That a preview and a commit of these files come to the same: the same failure for the same file, or
reports that differ in the contents alone, which are what the files hold after the commit. -/
inductive Agree (files : List Path) : EStateM.Result Failure MemoryStore Report →
    EStateM.Result Failure MemoryStore Report → Prop where
  | failed {failure : Failure} {file : Path} (before after : MemoryStore)
      (hmem : file ∈ files) (hfile : failure.file? = some file) :
      Agree files (.error failure before) (.error failure after)
  | succeeded {foretold report : Report} {after : MemoryStore} (before : MemoryStore)
      (hreports : report.files = foretold.files.map fun outcome => { outcome with content := none })
      (hfiles : foretold.files.map Outcome.file = files)
      (hcontents : ∀ outcome ∈ foretold.files, ∃ text, outcome.content = some text ∧
        after.get? outcome.file = some text) :
      Agree files (.ok foretold before) (.ok report after)

theorem commitFault?_of_not_refusesWrite {store : MemoryStore} {file : Path}
    (h : ¬ store.refusesWrite file = true) (ledger : Ledger) :
    store.commitFault? ledger file = store.previewFault? ledger file := by
  rw [MemoryStore.commitFault?, if_neg h]
  cases store.previewFault? ledger file <;> rfl

theorem agree_of_not_refusesWrite (session : Session) (hd : Path.Distinct session.files)
    {store : MemoryStore} (h : ∀ file ∈ session.files, ¬ store.refusesWrite file = true) :
    Agree session.files (session.preview access store) (session.commit access store) := by
  obtain ⟨after, hwrote, hrun⟩ := commitFiles_eq session.staging.ledger hd
    (store.previewFault? session.staging.ledger) store.textOf
    (fun file hf => commitFault?_of_not_refusesWrite (h file hf) _) (fun _ _ => rfl)
  rw [preview_eq, commit_eq, hrun]
  cases hfault : session.files.findSome? (store.previewFault? session.staging.ledger) with
  | some failure =>
    obtain ⟨file, hf, hfailure⟩ := List.exists_of_findSome?_eq_some hfault
    have hcommit := (commitFault?_of_not_refusesWrite (h file hf) _).trans hfailure
    exact .failed store after hf (file?_of_commitFault? hcommit)
  | none =>
    have hnone := List.findSome?_eq_none_iff.mp hfault
    have hall : (session.files.takeWhile fun file =>
        (store.previewFault? session.staging.ledger file).isNone) = session.files :=
      List.takeWhile_eq_self_iff.mpr fun file hf => Option.isNone_iff_eq_none.mpr (hnone file hf)
    refine .succeeded store ?_ ?_ ?_
    · rw [List.map_map]
      rfl
    · rw [List.map_map]
      exact List.map_id _
    · intro outcome ho
      obtain ⟨file, hf, rfl⟩ := List.mem_map.mp ho
      obtain ⟨content, hc, hafter⟩ := hwrote.written file (hall.symm ▸ hf)
      have htext : store.textOf file = content := by
        rw [MemoryStore.textOf, hc, Option.getD_some]
      exact ⟨_, rfl, htext ▸ hafter⟩

/-- A preview after any moves changes neither the store with its log nor the ledger, and a commit right
after it comes to the same if it can write the files of the session. -/
theorem preview_agrees_with_commit {β : Type} {store opened : MemoryStore} {patterns : List Text}
    {session : Session} (hopen : ofPatterns access patterns store = .ok session opened)
    (moves : List (Move β)) (memo : β) :
    let state := session.playAll moves (session.start opened memo)
    let now : Session := ⟨session.files, state.staging⟩
    Move.play session.files state .preview = state ∧
    ((∀ file ∈ session.files, ¬ state.store.refusesWrite file = true) →
      Agree session.files (now.preview access state.store)
        (now.commit access ((now.preview access).after state.store))) := by
  intro state now
  obtain ⟨-, -, hd⟩ := ofPatterns_ok hopen
  have hstore : (now.preview access).after state.store = state.store := after_preview now state.store
  constructor
  · rw [Move.play, hstore]
  · intro h
    rw [hstore]
    exact agree_of_not_refusesWrite now hd h

/-- The first file gets edits of both granularities and is changed from outside in between. Preview and
commit stop at it, though it can be read and written. -/
theorem preview_agrees_on_mixed_file :
    let a : Path := ⟨['a']⟩
    let b : Path := ⟨['b']⟩
    let store : MemoryStore := (MemoryStore.empty.set b ['x']).set a ['y']
    let session : Session := ⟨[a, b], .empty⟩
    let moves : List (Move Unit) :=
      [.filePass fun _ memo => .call ⟨['y'], ['x'], true⟩ fun _ => .done memo,
       .set a ['x', 'z'],
       .linePass fun _ memo => .call (.replace ['x'] ['w'] true) fun _ => .done memo]
    let state := session.playAll moves (session.start store ())
    let now : Session := ⟨session.files, state.staging⟩
    ofPatterns access [['*', '*']] store = .ok session store ∧
    (∀ file ∈ session.files, ¬ state.store.refusesWrite file = true) ∧
    Agree session.files (now.preview access state.store)
      (now.commit access ((now.preview access).after state.store)) ∧
    now.preview access state.store = .error (.mixedGranularity a) state.store := by
  intro a b store session moves state now
  have hopen : ofPatterns access [['*', '*']] store = .ok session store := rfl
  have hwrite : ∀ file ∈ session.files, ¬ state.store.refusesWrite file = true := by
    decide +kernel
  have hfault : now.files.findSome? (state.store.previewFault? now.staging.ledger) =
      some (.mixedGranularity a) := by decide +kernel
  refine ⟨hopen, hwrite, (preview_agrees_with_commit hopen moves ()).2 hwrite, ?_⟩
  rw [preview_eq, hfault]

end BulkEdit.Session
