import BulkEdit.Proofs.Access.Faithful
import BulkEdit.Proofs.Edit.Spelling

/-!
# Spellings in memory

Files in memory are told apart by their paths and not by how these are spelled. Whatever is set, read,
written or made to fail under some spellings, and under others in a second store, the two stores have the
same files in the same order, and every look-up comes to the same in both.
-/

namespace BulkEdit

theorem Path.before_congr {p p' q q' : Path} (hp : p.Same p') (hq : q.Same q') :
    p.before q = p'.before q' := by
  rw [before, before, key_eq_iff.mpr hp, key_eq_iff.mpr hq]

/-- Both sides of a comparison may be spelled differently. -/
theorem Path.same_congr {p p' q q' : Path} (hp : p.Same p') (hq : q.Same q') :
    p.Same q ↔ p'.Same q' :=
  ⟨fun h => (hp.symm.trans h).trans hq, fun h => (hp.trans h).trans hq.symm⟩

namespace MemoryStore

/-- What is done to files in memory, by a session or from outside. -/
inductive Operation where
  | set (text : Text)
  | failReads
  | failWrites
  | get
  | read
  | write (text : Text)
  deriving DecidableEq, Repr

/-- An operation on a path. -/
structure Step where
  path : Path
  operation : Operation
  deriving DecidableEq, Repr

/-- Makes a step. The answer is the text that is looked up or read. -/
def Step.perform (step : Step) : Action MemoryStore (Option Text) :=
  match step.operation with
  | .set text => fun store => .ok none (store.set step.path text)
  | .failReads => fun store =>
    .ok none { store with failingReads := store.failingReads ++ [step.path] }
  | .failWrites => fun store =>
    .ok none { store with failingWrites := store.failingWrites ++ [step.path] }
  | .get => fun store => .ok (store.get? step.path) store
  | .read => do
    let text ← access.read step.path
    pure (some text)
  | .write text => do
    access.write step.path text
    pure none

/-- The answers to steps, made in order whatever fails. -/
def answers : List Step → MemoryStore → List (Except Failure (Option Text))
  | [], _ => []
  | step :: rest, store => step.perform.answer store :: answers rest (step.perform.after store)

def performAll (steps : List Step) (store : MemoryStore) : MemoryStore :=
  steps.foldl (fun store step => step.perform.after store) store

/-- That two steps differ at most in the spelling of their path. -/
def Step.Respelled (step other : Step) : Prop :=
  step.path.Same other.path ∧ step.operation = other.operation

/-- That two stores differ at most in how their paths are spelled. -/
structure Alike (store other : MemoryStore) : Prop where
  files : List.Forall₂ (fun file file' => file.1.Same file'.1 ∧ file.2 = file'.2) store.files other.files
  writes : List.Forall₂ Path.Same store.writes other.writes
  failingReads : List.Forall₂ Path.Same store.failingReads other.failingReads
  failingWrites : List.Forall₂ Path.Same store.failingWrites other.failingWrites

theorem Alike.refl (store : MemoryStore) : store.Alike store where
  files := List.forall₂_same.mpr fun _ _ => ⟨Path.same_refl _, rfl⟩
  writes := List.forall₂_same.mpr fun _ _ => Path.same_refl _
  failingReads := List.forall₂_same.mpr fun _ _ => Path.same_refl _
  failingWrites := List.forall₂_same.mpr fun _ _ => Path.same_refl _

variable {store other : MemoryStore} {path path' : Path}

theorem insert_respelled {files others : List (Path × Text)}
    (h : List.Forall₂ (fun file file' => file.1.Same file'.1 ∧ file.2 = file'.2) files others)
    (hs : path.Same path') (text : Text) :
    List.Forall₂ (fun file file' => file.1.Same file'.1 ∧ file.2 = file'.2)
      (insert path text files) (insert path' text others) := by
  induction h with
  | nil => exact .cons ⟨hs, rfl⟩ .nil
  | cons hfile hrest ih =>
    -- Both comparisons come out alike, so that the text goes to the same place in both lists.
    have hsame := Path.same_congr hs hfile.1
    have hbefore := Path.before_congr hs hfile.1
    simp only [insert, hsame, hbefore]
    split
    · exact .cons ⟨hfile.1, rfl⟩ hrest
    · split
      · exact .cons ⟨hs, rfl⟩ (.cons hfile hrest)
      · exact .cons hfile ih

theorem find?_respelled {files others : List (Path × Text)}
    (h : List.Forall₂ (fun file file' => file.1.Same file'.1 ∧ file.2 = file'.2) files others)
    (hs : path.Same path') :
    (files.find? fun file => path.Same file.1).map Prod.snd =
      (others.find? fun file => path'.Same file.1).map Prod.snd := by
  induction h with
  | nil => rfl
  | @cons file file' rest rest' hfile _ ih =>
    have hsame : decide (path.Same file.1) = decide (path'.Same file'.1) :=
      decide_eq_decide.mpr (Path.same_congr hs hfile.1)
    rw [List.find?_cons, List.find?_cons, ← hsame]
    split
    · exact congrArg some hfile.2
    · exact ih

theorem any_same_respelled {paths others : List Path} (h : List.Forall₂ Path.Same paths others)
    (hs : path.Same path') :
    (paths.any fun failing => path.Same failing) = others.any fun failing => path'.Same failing :=
  forall₂_any (fun _ _ hp => decide_eq_decide.mpr (Path.same_congr hs hp)) h

/-- That every look-up comes to the same, in two stores and under any two spellings of a path. -/
structure LookedUpAlike (store other : MemoryStore) : Prop where
  get? : ∀ {path path' : Path}, path.Same path' → store.get? path = other.get? path'
  readFault? : ∀ {path path' : Path}, path.Same path' → store.readFault? path = other.readFault? path'
  refusesWrite : ∀ {path path' : Path}, path.Same path' →
    store.refusesWrite path = other.refusesWrite path'

theorem Alike.lookedUp (h : store.Alike other) : store.LookedUpAlike other := by
  have hget : ∀ {path path' : Path}, path.Same path' → store.get? path = other.get? path' :=
    find?_respelled h.files
  refine ⟨hget, fun hs => ?_, any_same_respelled h.failingWrites⟩
  rw [MemoryStore.readFault?, MemoryStore.readFault?, any_same_respelled h.failingReads hs, hget hs]

theorem Alike.set (h : store.Alike other) (hs : path.Same path') (text : Text) :
    (store.set path text).Alike (other.set path' text) where
  files := insert_respelled h.files hs text
  writes := h.writes
  failingReads := h.failingReads
  failingWrites := h.failingWrites

theorem Alike.written (h : store.Alike other) (hs : path.Same path') (text : Text) :
    (store.written path text).Alike (other.written path' text) where
  files := insert_respelled h.files hs text
  writes := List.rel_append h.writes (.cons hs .nil)
  failingReads := h.failingReads
  failingWrites := h.failingWrites

/-- That two results have the same answer, or failures that differ at most in a spelling, and leave stores
that are alike. -/
inductive ResultsAlike {α : Type} : EStateM.Result Failure MemoryStore α →
    EStateM.Result Failure MemoryStore α → Prop where
  | answered (answer : α) {store other : MemoryStore} (h : store.Alike other) :
      ResultsAlike (.ok answer store) (.ok answer other)
  | failed {failure failure' : Failure} (hfailure : failure.Respelled failure')
      {store other : MemoryStore} (h : store.Alike other) :
      ResultsAlike (.error failure store) (.error failure' other)

theorem read_respelled (h : store.Alike other) (hs : path.Same path') :
    ResultsAlike (access.read path store) (access.read path' other) := by
  rw [access_read_eq, access_read_eq, contents, contents, h.lookedUp.readFault? hs, textOf, textOf,
    h.lookedUp.get? hs]
  cases other.readFault? path' with
  | some fault => exact .failed (.unreadable hs fault) h
  | none => exact .answered _ h

theorem write_respelled (h : store.Alike other) (hs : path.Same path') (text : Text) :
    ResultsAlike (access.write path text store) (access.write path' text other) := by
  rw [access_write_eq, access_write_eq, h.lookedUp.refusesWrite hs]
  cases other.refusesWrite path' with
  | true => exact .failed (.unwritable hs .injectedWrite) h
  | false => exact .answered () (h.written hs text)

theorem ResultsAlike.bind {α β : Type} {action action' : Action MemoryStore α}
    {next : α → Action MemoryStore β} (h : ResultsAlike (action store) (action' other))
    (hnext : ∀ answer {store other}, store.Alike other →
      ResultsAlike (next answer store) (next answer other)) :
    ResultsAlike ((action >>= next) store) ((action' >>= next) other) := by
  simp only [Bind.bind, EStateM.bind]
  generalize action store = result, action' other = result' at h ⊢
  cases h with
  | answered answer h => exact hnext answer h
  | failed hfailure h => exact .failed hfailure h

/-- One step, under two spellings, in stores that are alike. -/
theorem perform_respelled (h : store.Alike other) {step step' : Step} (hs : step.Respelled step') :
    ResultsAlike (step.perform store) (step'.perform other) := by
  obtain ⟨path, operation⟩ := step
  obtain ⟨path', operation'⟩ := step'
  obtain ⟨hpath, rfl⟩ : path.Same path' ∧ operation = operation' := hs
  cases operation with
  | set text => exact .answered none (h.set hpath text)
  | failReads =>
    have hfailing := List.rel_append h.failingReads (.cons hpath .nil)
    exact .answered none ⟨h.files, h.writes, hfailing, h.failingWrites⟩
  | failWrites =>
    have hfailing := List.rel_append h.failingWrites (.cons hpath .nil)
    exact .answered none ⟨h.files, h.writes, h.failingReads, hfailing⟩
  | get =>
    simp only [Step.perform, h.lookedUp.get? hpath]
    exact .answered _ h
  | read => exact (read_respelled h hpath).bind fun text _ _ hafter => .answered (some text) hafter
  | write text => exact (write_respelled h hpath text).bind fun _ _ _ hafter => .answered none hafter

theorem ResultsAlike.answer {α : Type} {action action' : Action MemoryStore α}
    (h : ResultsAlike (action store) (action' other)) :
    AnswersAlike (action.answer store) (action'.answer other) ∧
      (action.after store).Alike (action'.after other) := by
  rw [Action.answer, Action.answer, Action.after, Action.after]
  generalize action store = result, action' other = result' at h ⊢
  cases h with
  | answered answer h => exact ⟨.answered answer, h⟩
  | failed hfailure h => exact ⟨.failed hfailure, h⟩

/-- Respelled steps are answered alike and leave stores that are alike. -/
theorem Alike.performAll (h : store.Alike other) {steps others : List Step}
    (hsteps : List.Forall₂ Step.Respelled steps others) :
    List.Forall₂ AnswersAlike (answers steps store) (answers others other) ∧
      (MemoryStore.performAll steps store).Alike (MemoryStore.performAll others other) := by
  induction hsteps generalizing store other with
  | nil => exact ⟨.nil, h⟩
  | cons hs _ ih =>
    obtain ⟨hanswer, hafter⟩ := (perform_respelled h hs).answer
    obtain ⟨hanswers, hend⟩ := ih hafter
    exact ⟨.cons hanswer hanswers, hend⟩

end MemoryStore

/-- How paths are spelled makes no difference. Requests for the same files under other spellings are answered
alike and leave the same edits, up to the spellings; the text so far of a line and what becomes of a file are
the same under every spelling. So it is in memory with what is set, read, written, looked up and made to
fail. -/
theorem spelling_makes_no_difference {requests others : List Request}
    (hrequests : List.Forall₂ Request.Respelled requests others) {steps steps' : List MemoryStore.Step}
    (hsteps : List.Forall₂ MemoryStore.Step.Respelled steps steps') (store : MemoryStore) :
    let staged := Staging.stageAll requests .empty
    let restaged := Staging.stageAll others .empty
    let after := MemoryStore.performAll steps store
    let after' := MemoryStore.performAll steps' store
    List.Forall₂ (fun entry entry' => AnswersAlike entry.2 entry'.2)
      (Staging.transcript requests .empty) (Staging.transcript others .empty) ∧
    List.Forall₂ Edit.Respelled staged.ledger restaged.ledger ∧
    (∀ {file path : Path}, file.Same path →
      (∀ number, staged.drafts.get? file number = restaged.drafts.get? path number) ∧
      ∀ content, Ledger.ResolvedAlike file path (staged.ledger.resolve file content)
        (restaged.ledger.resolve path content)) ∧
    List.Forall₂ AnswersAlike (MemoryStore.answers steps store) (MemoryStore.answers steps' store) ∧
    after.Alike after' ∧ after.LookedUpAlike after' := by
  intro staged restaged after after'
  obtain ⟨hanswers, hstaged⟩ := Staging.alike_empty.stageAll hrequests
  obtain ⟨hmemory, hafter⟩ := (MemoryStore.Alike.refl store).performAll hsteps
  refine ⟨hanswers, hstaged.ledger, fun hs => ⟨hstaged.drafts hs, fun content => ?_⟩, hmemory,
    hafter, hafter.lookedUp⟩
  exact Ledger.resolve_respelled hstaged.ledger hs content

/-- Two edits of one line and an edit of the whole file under three spellings, and a file that is set, made
to fail and written under three. -/
theorem spelling_of_nested_path :
    let p : Path := ⟨"a/b".toList⟩
    let q : Path := ⟨"a//b".toList⟩
    let r : Path := ⟨"a/./b/".toList⟩
    let line (file : Path) (search replacement : Text) : Request :=
      ⟨file, .line (some ['x', 'y']) (some 1), search, replacement, .first⟩
    let whole (file : Path) : Request := ⟨file, .wholeFile, ['x'], ['z'], .every⟩
    let requests := [line p ['x'] ['w'], line p ['y'] ['v']]
    let others := [line q ['x'] ['w'], line r ['y'] ['v']]
    let steps : List MemoryStore.Step := [⟨p, .set ['x']⟩, ⟨p, .failWrites⟩, ⟨p, .write ['y']⟩]
    let steps' : List MemoryStore.Step := [⟨q, .set ['x']⟩, ⟨r, .failWrites⟩, ⟨p, .write ['y']⟩]
    let restaged := Staging.stageAll others .empty
    let mixed := Staging.stageAll (others ++ [whole p]) .empty
    p.Same q ∧ p.Same r ∧ ¬ p.Same ⟨"./a/b".toList⟩ ∧
    List.Forall₂ Request.Respelled requests others ∧
    List.Forall₂ MemoryStore.Step.Respelled steps steps' ∧
    restaged.drafts.get? p 1 = some ['w', 'v'] ∧
    (∃ outcome, restaged.ledger.resolve r ['x', 'y'] = .ok (outcome, ['w', 'v']) ∧
      outcome.edits = 2) ∧
    mixed.ledger.resolve q ['x'] = .error (.mixedGranularity q) ∧
    (MemoryStore.performAll steps' .empty).get? r = some ['x'] ∧
    (MemoryStore.performAll steps' .empty).refusesWrite q = true := by
  intro p q r line whole requests others steps steps' restaged mixed
  have hpq : p.Same q := by decide
  have hpr : p.Same r := by decide
  have hrequests : List.Forall₂ Request.Respelled requests others :=
    .cons ⟨q, hpq, rfl⟩ (.cons ⟨r, hpr, rfl⟩ .nil)
  have hmixed : List.Forall₂ Request.Respelled (requests ++ [whole p]) (others ++ [whole p]) :=
    List.rel_append hrequests (.cons ⟨p, Path.same_refl p, rfl⟩ .nil)
  have hsteps : List.Forall₂ MemoryStore.Step.Respelled steps steps' :=
    .cons ⟨hpq, rfl⟩ (.cons ⟨hpr, rfl⟩ (.cons ⟨Path.same_refl p, rfl⟩ .nil))
  obtain ⟨-, -, hlookups, -, -, hmemory⟩ :=
    spelling_makes_no_difference hrequests hsteps MemoryStore.empty
  obtain ⟨-, -, hmixedLookups, -⟩ := spelling_makes_no_difference hmixed hsteps MemoryStore.empty
  have hdraft : (Staging.stageAll requests .empty).drafts.get? p 1 = some ['w', 'v'] := by decide +kernel
  have hresolve : (Staging.stageAll requests .empty).ledger.resolve p ['x', 'y'] =
      .ok (⟨p, some .line, 2, true, none⟩, ['w', 'v']) := by decide +kernel
  have hrefused : (Staging.stageAll (requests ++ [whole p]) .empty).ledger.resolve p ['x'] =
      .error (.mixedGranularity p) := by decide +kernel
  have hget : (MemoryStore.performAll steps .empty).get? p = some ['x'] := by decide +kernel
  have hwrites : (MemoryStore.performAll steps .empty).refusesWrite p = true := by decide +kernel
  refine ⟨hpq, hpr, by decide, hrequests, hsteps, ?_, ?_, ?_, ?_, ?_⟩
  · exact ((hlookups (Path.same_refl p)).1 1).symm.trans hdraft
  · rcases (hlookups hpr).2 ['x', 'y'] with ⟨outcome, text, hmine, hother⟩ | ⟨hmine, -⟩
    · cases hresolve.symm.trans hmine
      exact ⟨_, hother, rfl⟩
    · cases hresolve.symm.trans hmine
  · rcases (hmixedLookups hpq).2 ['x'] with ⟨outcome, text, hmine, -⟩ | ⟨-, hother⟩
    · cases hrefused.symm.trans hmine
    · exact hother
  · exact (hmemory.get? hpr).symm.trans hget
  · exact (hmemory.refusesWrite hpq).symm.trans hwrites

end BulkEdit
