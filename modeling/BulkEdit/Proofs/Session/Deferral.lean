import BulkEdit.Proofs.Session.Commit
import BulkEdit.Proofs.Session.Visits

/-!
# Calls on files wait for the commit

A call on a file matches nothing when it is made. After passes over files, whatever else has changed the
store, a commit makes of each file what the calls on it make of the text that it has by then, one call
after the other. Neither what the passes saw of the file nor what was called on other files shows in it.
-/

namespace BulkEdit

namespace FileCall

/-- The text that a call makes of a text. -/
def apply (call : FileCall) (text : Text) : Text :=
  if call.every then Text.replaceAll call.search call.replacement text
  else Text.replaceFirst call.search call.replacement text

/-- The text that calls make of a text, one after the other. -/
def applyAll (calls : List FileCall) (text : Text) : Text :=
  calls.foldl (fun text call => call.apply text) text

/-- Those of the calls that are on one file. -/
def onFile (calls : List (FileView × FileCall)) (file : Path) : List FileCall :=
  (calls.filter fun call => call.1.file.Same file).map Prod.snd

/-- The edits that calls record. -/
def edits (calls : List (FileView × FileCall)) : List Edit :=
  calls.map fun call => .ofWholeFile (call.1.request call.2)

theorem replayEdit_ofWholeFile (view : FileView) (call : FileCall) (text : Text) :
    FileEdits.replayEdit text (.ofWholeFile (view.request call)) = call.apply text := by
  obtain ⟨search, replacement, every⟩ := call
  cases every <;> rfl

variable {calls : List (FileView × FileCall)}

theorem granularity_of_mem_edits {edit : Edit} (h : edit ∈ edits calls) :
    edit.scope.granularity = .wholeFile := by
  obtain ⟨call, -, rfl⟩ := List.mem_map.mp h
  rfl

theorem replayed_edits (calls : List (FileView × FileCall)) (file : Path) (text : Text) :
    Ledger.replayed (edits calls) file text = applyAll (onFile calls file) text := by
  have hof : Ledger.ofFile (edits calls) file =
      edits (calls.filter fun call => call.1.file.Same file) := List.filter_map
  rw [Ledger.replayed, hof, edits, onFile, applyAll, List.foldl_map, List.foldl_map]
  simp only [replayEdit_ofWholeFile]

end FileCall

namespace Session

open MemoryStore (access)

variable {β : Type}

namespace Move

/-- Any move but a pass over lines. -/
def OfFiles : Move β → Prop
  | linePass _ => False
  | _ => True

/-- The calls that a move makes on files. -/
def calls (files : List Path) (state : PassState MemoryStore β) :
    Move β → List (FileView × FileCall)
  | filePass visit => (fileTrace visit files state).calls
  | _ => []

theorem ledger_play {move : Move β} (h : move.OfFiles) (files : List Path)
    (state : PassState MemoryStore β) :
    (move.play files state).staging.ledger =
      state.staging.ledger ++ FileCall.edits (move.calls files state) := by
  cases move with
  | linePass visit => exact h.elim
  | preview => exact (List.append_nil _).symm
  | set file text => exact (List.append_nil _).symm
  | filePass visit =>
    have hverdict : ∀ request ∈ (fileTrace visit files state).calls.map
        fun call => call.1.request call.2, request.verdict = .wholeFile := by
      intro request hr
      obtain ⟨call, -, rfl⟩ := List.mem_map.mp hr
      exact call.1.verdict_request call.2
    simp only [play, after_filePass, Staging.stageAll_wholeFile hverdict, List.map_map]
    rfl

end Move

/-- The calls that moves make on files, in order. -/
def callsOf (session : Session) : List (Move β) → PassState MemoryStore β → List (FileView × FileCall)
  | [], _ => []
  | move :: rest, state =>
    move.calls session.files state ++ session.callsOf rest (move.play session.files state)

theorem ledger_playAll {session : Session} {moves : List (Move β)}
    (h : ∀ move ∈ moves, move.OfFiles) (state : PassState MemoryStore β) :
    (session.playAll moves state).staging.ledger =
      state.staging.ledger ++ FileCall.edits (session.callsOf moves state) := by
  induction moves generalizing state with
  | nil => exact (List.append_nil _).symm
  | cons move rest ih =>
    obtain ⟨hmove, hrest⟩ := List.forall_mem_cons.mp h
    rw [playAll, List.foldl_cons, ← playAll, ih hrest, Move.ledger_play hmove, List.append_assoc,
      callsOf, FileCall.edits, FileCall.edits, FileCall.edits, List.map_append]

/-- Files of which no read or write is made to fail. -/
structure Undisturbed (files : List Path) (store : MemoryStore) : Prop where
  reads : store.failingReads = []
  writes : store.failingWrites = []
  stored : ∀ file ∈ files, (store.get? file).isSome = true

theorem Undisturbed.set {files : List Path} {store : MemoryStore} (h : Undisturbed files store)
    (path : Path) (text : Text) : Undisturbed files (store.set path text) where
  reads := h.reads
  writes := h.writes
  stored file hf := by
    rw [MemoryStore.get?_set]
    split
    · rfl
    · exact h.stored file hf

theorem Undisturbed.commitFault? {files : List Path} {store : MemoryStore} (h : Undisturbed files store)
    {ledger : Ledger} {file : Path} (hf : file ∈ files) (hmixed : ¬ ledger.isMixed file = true) :
    store.commitFault? ledger file = none := by
  have hread := MemoryStore.readFault?_of_isSome (h.stored file hf) h.reads
  exact MemoryStore.commitFault?_eq_none hread hmixed (MemoryStore.refusesWrite_of_nil h.writes file)

/-- A commit of edits for whole files, which nothing stops. -/
theorem commit_of_wholeFile (session : Session) (hd : Path.Distinct session.files)
    {store : MemoryStore} (hsound : Undisturbed session.files store)
    (h : ∀ edit ∈ session.staging.ledger, edit.scope.granularity = .wholeFile) :
    ∃ report after, session.commit access store = .ok report after ∧
      Wrote session.staging.ledger session.files store after := by
  have hclear : ∀ file ∈ session.files, store.commitFault? session.staging.ledger file = none :=
    fun file hf => hsound.commitFault? hf
      (Ledger.not_isMixed fun edit he => h edit (List.mem_filter.mp he).1)
  obtain ⟨after, hwrote, hrun⟩ := commitFiles_eq session.staging.ledger hd (fun _ => none)
    store.textOf hclear (fun _ _ => rfl)
  have hnone : session.files.findSome? (fun _ => (none : Option Failure)) = none :=
    List.findSome?_eq_none_iff.mpr fun _ _ => rfl
  have hall : session.files.takeWhile (fun _ => (none : Option Failure).isNone) = session.files :=
    List.takeWhile_eq_self_iff.mpr fun _ _ => rfl
  rw [hnone] at hrun
  exact ⟨_, after, by rw [commit_eq, hrun], hall ▸ hwrote⟩

/-- A commit after passes over files makes of each file what its calls make of the text that it then has,
and leaves the other files. -/
theorem commit_applies_calls {store opened : MemoryStore} {patterns : List Text} {session : Session}
    (hopen : ofPatterns access patterns store = .ok session opened)
    (hreads : store.failingReads = []) (hwrites : store.failingWrites = [])
    {moves : List (Move β)} (hmoves : ∀ move ∈ moves, move.OfFiles) (memo : β) :
    let start := session.start opened memo
    let state := session.playAll moves start
    let calls := session.callsOf moves start
    ∃ report after,
      commit access ⟨session.files, state.staging⟩ state.store = .ok report after ∧
      (∀ file ∈ session.files, ∃ content, state.store.get? file = some content ∧
        after.get? file = some (FileCall.applyAll (FileCall.onFile calls file) content)) ∧
      ∀ path, (∀ file ∈ session.files, ¬ file.Same path) →
        after.get? path = state.store.get? path := by
  intro start state calls
  obtain ⟨rfl, hempty, hd⟩ := ofPatterns_ok hopen
  -- The calls depend on what the passes saw, while the commit depends on the ledger and the store alone.
  have hledger : state.staging.ledger = FileCall.edits calls := by
    have hstart : start.staging.ledger = [] := congrArg Staging.ledger hempty
    rw [ledger_playAll hmoves, hstart, List.nil_append]
  have hsound : Undisturbed session.files state.store :=
    store_playAll_induction (fun _ path text h => h.set path text) session moves
      ⟨hreads, hwrites, fun file hf =>
        MemoryStore.get?_isSome_of_mem (mem_stored_of_ofPatterns hopen file hf)⟩
  obtain ⟨report, after, hcommit, hwrote⟩ :=
    commit_of_wholeFile ⟨session.files, state.staging⟩ hd hsound fun edit he =>
      FileCall.granularity_of_mem_edits (hledger ▸ he)
  refine ⟨report, after, hcommit, fun file hf => ?_, hwrote.others⟩
  obtain ⟨content, hcontent, hafter⟩ := hwrote.written file hf
  rw [hledger, FileCall.replayed_edits] at hafter
  exact ⟨content, hcontent, hafter⟩

/-- A pass that calls by what it sees and fails at the second file, a change of the first one, and a second
pass. The first call meets a letter that was not there when it was made. -/
theorem commit_applies_calls_to_later_text :
    let a : Path := ⟨['a']⟩
    let b : Path := ⟨['b']⟩
    let store := (MemoryStore.empty.set a ['w']).set b ['y']
    let session : Session := ⟨[a, b], .empty⟩
    let moves : List (Move Unit) :=
      [.filePass fun view memo =>
          if view.content.has ['w'] then .call ⟨['x'], ['y', 'y'], false⟩ fun _ => .done memo
          else .fail (.mixedGranularity view.file) memo,
        .set a ['x', 'w', 'x'], .preview,
        .filePass fun _ memo => .call ⟨['y'], ['z'], true⟩ fun _ => .done memo]
    let state := session.playAll moves (session.start store ())
    ofPatterns access [['*']] store = .ok session store ∧
    (∀ move ∈ moves, move.OfFiles) ∧
    ∃ report after,
      commit access ⟨session.files, state.staging⟩ state.store = .ok report after ∧
      after.get? a = some ['z', 'z', 'w', 'x'] ∧ after.get? b = some ['z'] := by
  intro a b store session moves state
  have hopen : ofPatterns access [['*']] store = .ok session store := rfl
  have hmoves : ∀ move ∈ moves, move.OfFiles := by simp [moves, Move.OfFiles]
  obtain ⟨report, after, hcommit, hafter, -⟩ := commit_applies_calls hopen rfl rfl hmoves ()
  have hfiles : a ∈ session.files ∧ b ∈ session.files := by decide
  obtain ⟨text, htext, ha⟩ := hafter a hfiles.1
  obtain ⟨other, hother, hb⟩ := hafter b hfiles.2
  have hstored : state.store.get? a = some ['x', 'w', 'x'] ∧ state.store.get? b = some ['y'] := by
    decide +kernel
  obtain rfl := Option.some.inj (htext.symm.trans hstored.1)
  obtain rfl := Option.some.inj (hother.symm.trans hstored.2)
  exact ⟨hopen, hmoves, report, after, hcommit, ha.trans (by decide +kernel),
    hb.trans (by decide +kernel)⟩

end Session

end BulkEdit
