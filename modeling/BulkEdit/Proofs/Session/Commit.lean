import BulkEdit.Proofs.Session.Moves

/-!
# What a commit writes

A commit writes file after file and stops at the first that it cannot read, resolve or write. Files
that differ do not see each other, so that what stops it is settled by the store that it starts from,
and what is written before that stays.
-/

namespace BulkEdit

/-- What a store is after some files have been written, each with its own edits replayed. -/
structure Wrote (ledger : Ledger) (files : List Path) (before after : MemoryStore) : Prop where
  log : after.writes = before.writes ++ files
  written : ∀ file ∈ files,
    ∃ content, before.get? file = some content ∧
      after.get? file = some (ledger.replayed file content)
  others : ∀ path, (∀ file ∈ files, ¬ file.Same path) → after.get? path = before.get? path
  failingReads : after.failingReads = before.failingReads
  failingWrites : after.failingWrites = before.failingWrites

theorem Wrote.nil (ledger : Ledger) (store : MemoryStore) : Wrote ledger [] store store where
  log := (List.append_nil _).symm
  written := by simp
  others _ _ := rfl
  failingReads := rfl
  failingWrites := rfl

namespace MemoryStore

/-- The store after writes that succeed, in order. -/
def writeAll (store : MemoryStore) (texts : List (Path × Text)) : MemoryStore :=
  texts.foldl (fun store entry => store.written entry.1 entry.2) store

theorem get?_written_of_ne {file path : Path} (h : ¬ file.Same path) (store : MemoryStore)
    (text : Text) : (store.written file text).get? path = store.get? path :=
  (get?_set store file text path).trans (if_neg h)

theorem get?_written_self (store : MemoryStore) (file : Path) (text : Text) :
    (store.written file text).get? file = some text :=
  (get?_set store file text file).trans (if_pos (Path.same_refl file))

/-- A write of another file does not change what a commit of a file meets. -/
theorem commitFault?_written {file path : Path} (h : ¬ file.Same path) (store : MemoryStore)
    (text : Text) (ledger : Ledger) :
    (store.written file text).commitFault? ledger path = store.commitFault? ledger path := by
  have hget := get?_written_of_ne h store text
  simp only [commitFault?, previewFault?, readFault?, hget]
  rfl

theorem textOf_written {file path : Path} (h : ¬ file.Same path) (store : MemoryStore)
    (text : Text) : (store.written file text).textOf path = store.textOf path := by
  rw [textOf, get?_written_of_ne h, textOf]

theorem readFault?_of_commitFault? {store : MemoryStore} {ledger : Ledger} {file : Path}
    (h : store.commitFault? ledger file = none) : store.readFault? file = none := by
  rw [commitFault?, previewFault?] at h
  cases hf : store.readFault? file with
  | none => rfl
  | some fault =>
    rw [hf] at h
    cases h

end MemoryStore

theorem Wrote.cons {ledger : Ledger} {file : Path} {rest : List Path} {before after : MemoryStore}
    (hget : before.get? file = some (before.textOf file)) (hne : ∀ other ∈ rest, ¬ file.Same other)
    (h : Wrote ledger rest
      (before.written file (ledger.replayed file (before.textOf file))) after) :
    Wrote ledger (file :: rest) before after where
  log := by
    rw [h.log, List.append_cons]
    rfl
  written := by
    intro other ho
    rcases List.mem_cons.mp ho with rfl | ho
    · refine ⟨_, hget, ?_⟩
      rw [h.others other fun f hf hs => hne f hf hs.symm]
      exact MemoryStore.get?_written_self _ _ _
    · obtain ⟨content, hc, ha⟩ := h.written other ho
      exact ⟨content, (MemoryStore.get?_written_of_ne (hne other ho) before _).symm.trans hc, ha⟩
  others := by
    intro path hp
    obtain ⟨hfile, hrest⟩ := List.forall_mem_cons.mp hp
    rw [h.others path hrest, MemoryStore.get?_written_of_ne hfile]
  failingReads := h.failingReads
  failingWrites := h.failingWrites

namespace Session

open MemoryStore (access)

variable {ledger : Ledger} {file : Path} (rest : List Path) {store : MemoryStore}

theorem commitFiles_of_commitFault? {failure : Failure}
    (h : store.commitFault? ledger file = some failure) :
    commitFiles access ledger (file :: rest) store = .error failure store := by
  simp only [commitFiles, bind, EStateM.bind, resolve_eq]
  cases hp : store.previewFault? ledger file with
  | some fault =>
    rw [MemoryStore.commitFault?, hp] at h
    cases h
    rfl
  | none =>
    have hw : ∀ text, access.write file text store = _ := MemoryStore.write_eq store file
    simp only [MemoryStore.commitFault?, hp] at h
    split at h
    next hr =>
      cases h
      simp only [hw, if_pos hr]
    next => cases h

/-- A file that nothing stops is written before the others are looked at. -/
theorem commitFiles_of_clear (h : store.commitFault? ledger file = none) :
    commitFiles access ledger (file :: rest) store =
      match commitFiles access ledger rest
        (store.written file (ledger.replayed file (store.textOf file))) with
      | .error failure after => .error failure after
      | .ok others after => .ok (ledger.outcome file (store.textOf file) :: others) after := by
  simp only [commitFiles, bind, EStateM.bind, resolve_eq]
  cases hp : store.previewFault? ledger file with
  | some fault =>
    rw [MemoryStore.commitFault?, hp] at h
    cases h
  | none =>
    have hw : ∀ text, access.write file text store = _ := MemoryStore.write_eq store file
    simp only [MemoryStore.commitFault?, hp] at h
    split at h
    next => cases h
    next hr =>
      simp only [hw, if_neg hr]
      cases commitFiles access ledger rest
        (store.written file (ledger.replayed file (store.textOf file))) <;> rfl

/-- A commit in terms of faults and texts that are fixed beforehand. A write changes neither for the
files behind it, as they differ from the file that is written. -/
theorem commitFiles_eq (ledger : Ledger) {files : List Path} (hd : Path.Distinct files)
    (fault? : Path → Option Failure) (textOf : Path → Text) {store : MemoryStore}
    (hfault : ∀ file ∈ files, store.commitFault? ledger file = fault? file)
    (htext : ∀ file ∈ files, store.textOf file = textOf file) :
    ∃ after, Wrote ledger (files.takeWhile fun file => (fault? file).isNone) store after ∧
      commitFiles access ledger files store =
        match files.findSome? fault? with
        | some failure => .error failure after
        | none => .ok (files.map fun file => ledger.outcome file (textOf file)) after := by
  induction files generalizing store with
  | nil => exact ⟨store, Wrote.nil ledger store, rfl⟩
  | cons file rest ih =>
    obtain ⟨hne, hrest⟩ := List.pairwise_cons.mp hd
    obtain ⟨hfile, hfaults⟩ := List.forall_mem_cons.mp hfault
    obtain ⟨htextFile, htexts⟩ := List.forall_mem_cons.mp htext
    rw [List.takeWhile_cons, List.findSome?_cons]
    cases hf : fault? file with
    | some failure =>
      rw [hf] at hfile
      exact ⟨store, Wrote.nil ledger store, commitFiles_of_commitFault? rest hfile⟩
    | none =>
      rw [hf] at hfile
      have hread := MemoryStore.readFault?_of_commitFault? hfile
      have hfaults' : ∀ other ∈ rest,
          (store.written file (ledger.replayed file (store.textOf file))).commitFault? ledger other =
            fault? other := fun other ho =>
        (MemoryStore.commitFault?_written (hne other ho) _ _ _).trans (hfaults other ho)
      have htexts' : ∀ other ∈ rest,
          (store.written file (ledger.replayed file (store.textOf file))).textOf other =
            textOf other := fun other ho =>
        (MemoryStore.textOf_written (hne other ho) _ _).trans (htexts other ho)
      obtain ⟨after, hwrote, hrun⟩ := ih hrest hfaults' htexts'
      refine ⟨after, hwrote.cons (MemoryStore.get?_of_readable hread) ?_, ?_⟩
      · exact fun other ho => hne other ((List.takeWhile_sublist _).subset ho)
      · rw [commitFiles_of_clear rest hfile, hrun]
        simp only
        cases rest.findSome? fault? with
        | some failure => rfl
        | none => rw [List.map_cons, htextFile]

/-- A commit that nothing stops writes every file, each with its own edits replayed. -/
theorem commitFiles_of_all_clear (ledger : Ledger) {files : List Path} (hd : Path.Distinct files)
    {store : MemoryStore} (h : ∀ file ∈ files, store.commitFault? ledger file = none) :
    commitFiles access ledger files store =
      .ok (files.map fun file => ledger.outcome file (store.textOf file))
        (store.writeAll (files.map fun file =>
          (file, ledger.replayed file (store.textOf file)))) := by
  induction files generalizing store with
  | nil => rfl
  | cons file rest ih =>
    obtain ⟨hne, hrest⟩ := List.pairwise_cons.mp hd
    obtain ⟨hfile, hclear⟩ := List.forall_mem_cons.mp h
    have hclear' : ∀ other ∈ rest,
        (store.written file (ledger.replayed file (store.textOf file))).commitFault? ledger other =
          none := fun other ho =>
      (MemoryStore.commitFault?_written (hne other ho) _ _ _).trans (hclear other ho)
    have htext : ∀ other ∈ rest,
        (store.written file (ledger.replayed file (store.textOf file))).textOf other =
          store.textOf other := fun other ho => MemoryStore.textOf_written (hne other ho) _ _
    rw [commitFiles_of_clear rest hfile, ih hrest hclear', List.map_cons, List.map_cons]
    have houtcomes := List.map_congr_left fun other ho =>
      congrArg (ledger.outcome other) (htext other ho)
    have htexts := List.map_congr_left fun other ho =>
      congrArg (fun text => (other, ledger.replayed other text)) (htext other ho)
    rw [houtcomes, htexts]
    rfl

theorem file?_of_commitFault? {failure : Failure}
    (h : store.commitFault? ledger file = some failure) : failure.file? = some file := by
  rw [MemoryStore.commitFault?, MemoryStore.previewFault?] at h
  cases hr : store.readFault? file with
  | some fault =>
    rw [hr] at h
    cases h
    rfl
  | none =>
    simp only [hr] at h
    cases hm : ledger.isMixed file <;> cases hw : store.refusesWrite file <;> simp [hm, hw] at h <;>
      subst h <;> rfl

theorem findSome?_eq_bind_find? {α β : Type} (f : α → Option β) (items : List α) :
    items.findSome? f = (items.find? fun item => (f item).isSome).bind f := by
  induction items with
  | nil => rfl
  | cons item rest ih =>
    rw [List.findSome?_cons, List.find?_cons]
    cases hf : f item with
    | none => exact ih
    | some found => exact hf.symm

theorem commit_eq (session : Session) (store : MemoryStore) :
    session.commit access store =
      match commitFiles access session.staging.ledger session.files store with
      | .error failure after => .error failure after
      | .ok files after => .ok ⟨files⟩ after := by
  simp only [commit, bind, EStateM.bind]
  cases commitFiles access session.staging.ledger session.files store <;> rfl

/-- A commit of a ledger in which every file has edits of its own, all of one granularity. -/
theorem commit_of_edits {files : List Path} (hd : Path.Distinct files) {store : MemoryStore}
    (hread : ∀ file ∈ files, store.readFault? file = none)
    (hwrite : ∀ file ∈ files, store.refusesWrite file = false)
    {edits : Path → List Edit} {g : Granularity}
    (hedits : ∀ file ∈ files, ∀ edit ∈ edits file, edit.file = file ∧ edit.scope.granularity = g)
    {staging : Staging} (hledger : staging.ledger = files.flatMap edits) {output : Path → Text}
    (houtput : ∀ file ∈ files,
      (edits file).foldl FileEdits.replayEdit (store.textOf file) = output file) :
    ∃ report, commit access ⟨files, staging⟩ store =
      .ok report (store.writeAll (files.map fun file => (file, output file))) := by
  have hof : ∀ file ∈ files, staging.ledger.ofFile file = edits file := by
    intro file hf
    rw [hledger]
    exact Ledger.ofFile_flatMap hd (fun file hf edit he => (hedits file hf edit he).1) hf
  have hclear : ∀ file ∈ files, store.commitFault? staging.ledger file = none := by
    intro file hf
    have hgranularity : ∀ edit ∈ staging.ledger.ofFile file, edit.scope.granularity = g := by
      rw [hof file hf]
      exact fun edit he => (hedits file hf edit he).2
    exact MemoryStore.commitFault?_eq_none (hread file hf) (Ledger.not_isMixed hgranularity)
      (hwrite file hf)
  have htexts : ∀ file ∈ files,
      (file, staging.ledger.replayed file (store.textOf file)) = (file, output file) := by
    intro file hf
    rw [Ledger.replayed, hof file hf, houtput file hf]
  have hrun := commitFiles_of_all_clear staging.ledger hd hclear
  rw [List.map_congr_left htexts] at hrun
  exact ⟨_, by rw [commit_eq, hrun]⟩

theorem commit_of_flatMap {files : List Path} (hd : Path.Distinct files) {store : MemoryStore}
    (hread : ∀ file ∈ files, store.readFault? file = none) (hwrites : store.failingWrites = [])
    {edits : Path → List Edit} {g : Granularity}
    (hedits : ∀ file ∈ files, ∀ edit ∈ edits file, edit.file = file ∧ edit.scope.granularity = g)
    {staging : Staging} (hledger : staging.ledger = files.flatMap edits) {output : Path → Text}
    (houtput : ∀ file ∈ files,
      (edits file).foldl FileEdits.replayEdit (store.textOf file) = output file) :
    ∃ report, commit access ⟨files, staging⟩ store =
      .ok report (store.writeAll (files.map fun file => (file, output file))) :=
  commit_of_edits hd hread (fun file _ => MemoryStore.refusesWrite_of_nil hwrites file) hedits hledger
    houtput

/-- A commit after any moves writes exactly the files in front of the first one that it cannot read,
that has edits of both granularities, or that it cannot write. Before the commit only changes from
outside have touched the store. -/
theorem commit_writes_prefix {β : Type} {store opened : MemoryStore} {patterns : List Text}
    {session : Session} (hopen : ofPatterns access patterns store = .ok session opened)
    (moves : List (Move β)) (memo : β) :
    let state := session.playAll moves (session.start opened memo)
    let ledger := state.staging.ledger
    let fault? := state.store.commitFault? ledger
    opened = store ∧ state.store = moves.foldl Move.setFrom store ∧
    ∃ after, Wrote ledger (session.files.takeWhile fun file => (fault? file).isNone)
        state.store after ∧
      match session.files.find? fun file => (fault? file).isSome with
      | some file => ∃ failure, fault? file = some failure ∧ failure.file? = some file ∧
          commit access ⟨session.files, state.staging⟩ state.store = .error failure after
      | none =>
          commit access ⟨session.files, state.staging⟩ state.store =
            .ok ⟨session.files.map fun file => ledger.outcome file (state.store.textOf file)⟩
              after := by
  intro state ledger fault?
  obtain ⟨rfl, -, hd⟩ := ofPatterns_ok hopen
  refine ⟨rfl, store_playAll session moves _, ?_⟩
  obtain ⟨after, hwrote, hrun⟩ := commitFiles_eq ledger hd fault? state.store.textOf
    (fun _ _ => rfl) (fun _ _ => rfl)
  refine ⟨after, hwrote, ?_⟩
  rw [findSome?_eq_bind_find?] at hrun
  cases hfind : session.files.find? fun file => (fault? file).isSome with
  | some file =>
    have hsome := List.find?_some hfind
    obtain ⟨failure, hf⟩ := Option.isSome_iff_exists.mp hsome
    rw [hfind, Option.bind_some, hf] at hrun
    exact ⟨failure, hf, file?_of_commitFault? hf, by rw [commit_eq, hrun]⟩
  | none =>
    rw [hfind] at hrun
    change _ = _
    rw [commit_eq, hrun]
    rfl

/-- The second file refuses its write: the first holds its new text by then, and the third is not
looked at. -/
theorem commit_stops_at_refused_write :
    let a : Path := ⟨['a']⟩
    let b : Path := ⟨['b']⟩
    let c : Path := ⟨['c']⟩
    let store : MemoryStore :=
      { ((MemoryStore.empty.set b ['x']).set c ['x']).set a ['x', 'y', 'x'] with failingWrites := [b] }
    let session : Session := ⟨[a, b, c], .empty⟩
    let moves : List (Move Unit) :=
      [.filePass fun _ memo => .call ⟨['x'], ['w'], true⟩ fun _ => .done memo]
    let state := session.playAll moves (session.start store ())
    ofPatterns access [['*', '*']] store = .ok session store ∧
    ∃ after, Wrote state.staging.ledger [a] state.store after ∧
      after.get? a = some ['w', 'y', 'w'] ∧
      commit access ⟨session.files, state.staging⟩ state.store =
        .error (.unwritable b .injectedWrite) after := by
  intro a b c store session moves
  have hopen : ofPatterns access [['*', '*']] store = .ok session store := rfl
  have hcommit := commit_writes_prefix hopen moves ()
  generalize hstate : session.playAll moves (session.start store ()) = state at hcommit ⊢
  have hfault : state.store.commitFault? state.staging.ledger b =
      some (.unwritable b .injectedWrite) := by subst hstate; decide +kernel
  have hfind : (session.files.find? fun file =>
      (state.store.commitFault? state.staging.ledger file).isSome) = some b := by
    subst hstate; decide +kernel
  have htake : (session.files.takeWhile fun file =>
      (state.store.commitFault? state.staging.ledger file).isNone) = [a] := by
    subst hstate; decide +kernel
  have hbefore : state.store.get? a = some ['x', 'y', 'x'] := by subst hstate; decide +kernel
  have hreplayed : state.staging.ledger.replayed a ['x', 'y', 'x'] = ['w', 'y', 'w'] := by
    subst hstate; decide +kernel
  obtain ⟨-, -, after, hwrote, hrun⟩ := hcommit
  rw [htake] at hwrote
  rw [hfind] at hrun
  obtain ⟨failure, hfailure, -, hrun⟩ := hrun
  obtain ⟨content, hcontent, hafter⟩ := hwrote.written a List.mem_cons_self
  obtain rfl := Option.some.inj (hbefore.symm.trans hcontent)
  obtain rfl := Option.some.inj (hfault.symm.trans hfailure)
  rw [hreplayed] at hafter
  exact ⟨hopen, after, hwrote, hafter, hrun⟩

end Session

end BulkEdit
