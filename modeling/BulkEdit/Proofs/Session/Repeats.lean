import BulkEdit.Proofs.Session.Foretelling
import BulkEdit.Proofs.Session.Keeping

/-!
# Repeated files

An access may list a file several times. Opening a session merges neighbours only, so that the files of
a session are distinct exactly when all repetitions of a file stand next to each other. A commit then
reads and writes each file once.
-/

namespace BulkEdit

variable {σ α : Type}

namespace Path

/-- Nothing stands between two paths that are the same but that path again. -/
def Grouped (paths : List Path) : Prop :=
  ∀ p q r, List.Sublist [p, q, r] paths → p.Same r → p.Same q

theorem Grouped.sublist {paths others : List Path} (h : Grouped paths)
    (hs : List.Sublist others paths) : Grouped others :=
  fun p q r hpqr => h p q r (hpqr.trans hs)

theorem mergeAfter_sublist (last : Path) (paths : List Path) :
    List.Sublist (mergeAfter last paths) paths := by
  induction paths generalizing last with
  | nil => exact List.Sublist.refl _
  | cons p rest ih =>
    rw [mergeAfter]
    split
    · exact (ih last).cons p
    · exact (ih p).cons_cons p

theorem mergeAdjacent_sublist (paths : List Path) : List.Sublist (mergeAdjacent paths) paths := by
  cases paths with
  | nil => exact List.Sublist.refl _
  | cons p rest => exact (mergeAfter_sublist p rest).cons_cons p

theorem exists_same_of_mem_mergeAfter {last path : Path} {paths : List Path} (h : path ∈ paths) :
    ∃ file ∈ last :: mergeAfter last paths, file.Same path := by
  induction paths generalizing last with
  | nil => cases h
  | cons p rest ih =>
    rw [mergeAfter]
    rcases List.mem_cons.mp h with rfl | h
    · split
      next hs => exact ⟨last, List.mem_cons_self, hs⟩
      · exact ⟨path, List.mem_cons_of_mem _ List.mem_cons_self, same_refl path⟩
    · split
      · exact ih h
      · have hkept : ∃ file ∈ p :: mergeAfter p rest, file.Same path := ih h
        obtain ⟨file, hf, hsame⟩ := hkept
        exact ⟨file, List.mem_cons_of_mem _ hf, hsame⟩

theorem exists_same_of_mem_mergeAdjacent {path : Path} {paths : List Path} (h : path ∈ paths) :
    ∃ file ∈ mergeAdjacent paths, file.Same path := by
  cases paths with
  | nil => cases h
  | cons p rest =>
    rcases List.mem_cons.mp h with rfl | h
    · exact ⟨path, List.mem_cons_self, same_refl path⟩
    · exact exists_same_of_mem_mergeAfter h

theorem distinct_mergeAfter {last : Path} {paths : List Path} (h : Grouped (last :: paths)) :
    Distinct (last :: mergeAfter last paths) := by
  induction paths generalizing last with
  | nil => exact List.pairwise_singleton _ _
  | cons p rest ih =>
    rw [mergeAfter]
    split
    · exact ih (h.sublist ((List.sublist_cons_self p rest).cons_cons last))
    next hne =>
      refine List.pairwise_cons.mpr ⟨?_, ih (h.sublist (List.sublist_cons_self last _))⟩
      intro q hq hs
      rcases List.mem_cons.mp hq with rfl | hq
      · exact hne hs
      · have hmem := (mergeAfter_sublist p rest).subset hq
        exact hne (h last p q (((List.singleton_sublist.mpr hmem).cons_cons p).cons_cons last) hs)

theorem grouped_of_distinct_mergeAfter {last : Path} {paths : List Path}
    (h : Distinct (last :: mergeAfter last paths)) : Grouped (last :: paths) := by
  induction paths generalizing last with
  | nil =>
    intro p q r hpqr
    have := hpqr.length_le
    simp at this
  | cons next rest ih =>
    rw [mergeAfter] at h
    intro p q r hpqr hs
    split at h
    next hsame =>
      -- `next` is merged into `last`, so either can stand for the other.
      have hgrouped := ih h
      cases hpqr with
      | cons _ hpqr =>
        cases hpqr with
        | cons _ hpqr => exact hgrouped p q r (hpqr.cons last) hs
        | cons_cons _ hqr =>
          exact hsame.symm.trans (hgrouped last q r (hqr.cons_cons last) (hsame.trans hs))
      | cons_cons _ hqr =>
        cases hqr with
        | cons _ hqr => exact hgrouped last q r (hqr.cons_cons last) hs
        | cons_cons _ _ => exact hsame
    next =>
      obtain ⟨hne, hrest⟩ := List.pairwise_cons.mp h
      cases hpqr with
      | cons _ hpqr => exact ih hrest p q r hpqr hs
      | cons_cons _ hqr =>
        -- `last` differs from all that is kept, so it does not come again.
        have hr : r ∈ next :: rest := hqr.subset (List.mem_cons_of_mem q List.mem_cons_self)
        obtain ⟨file, hf, hfile⟩ := exists_same_of_mem_mergeAdjacent hr
        exact absurd (hs.trans hfile.symm) (hne file hf)

theorem distinct_mergeAdjacent_iff {paths : List Path} :
    Distinct (mergeAdjacent paths) ↔ Grouped paths := by
  cases paths with
  | nil => exact ⟨fun _ _ _ _ h => (nomatch h), fun _ => List.Pairwise.nil⟩
  | cons p rest => exact ⟨grouped_of_distinct_mergeAfter, distinct_mergeAfter⟩

end Path

/-- A call of an access on a file. -/
inductive FileAction where
  | read (file : Path)
  | write (file : Path)
  deriving DecidableEq, Repr

namespace FileAction

def file : FileAction → Path
  | .read file => file
  | .write file => file

/-- A read and a write of each file. -/
def ofFiles (files : List Path) : List FileAction := files.flatMap fun file => [.read file, .write file]

def onFile (calls : List FileAction) (file : Path) : List FileAction :=
  calls.filter fun call => call.file.Same file

theorem file_of_mem {call : FileAction} {file : Path} (h : call ∈ [read file, write file]) :
    call.file = file := by
  rcases List.mem_cons.mp h with rfl | h
  · rfl
  · rw [List.mem_singleton.mp h]
    rfl

theorem onFile_ofFiles {files : List Path} (hd : Path.Distinct files) {file : Path}
    (hf : file ∈ files) : onFile (ofFiles files) file = [.read file, .write file] := by
  induction files with
  | nil => cases hf
  | cons first rest ih =>
    obtain ⟨hne, hrest⟩ := List.pairwise_cons.mp hd
    rw [ofFiles, List.flatMap_cons, onFile, List.filter_append]
    rcases List.mem_cons.mp hf with rfl | hf
    · have hown : onFile [read file, write file] file = [read file, write file] :=
        List.filter_eq_self.mpr fun call hc => decide_eq_true (congrArg _ (file_of_mem hc))
      have hnone : onFile (ofFiles rest) file = [] := by
        refine List.filter_eq_nil_iff.mpr fun call hc hs => ?_
        obtain ⟨other, ho, hcall⟩ := List.mem_flatMap.mp hc
        rw [file_of_mem hcall] at hs
        exact hne other ho (of_decide_eq_true hs).symm
      exact (congrArg (· ++ _) hown).trans (congrArg _ hnone)
    · have hother : onFile [read first, write first] file = [] := by
        refine List.filter_eq_nil_iff.mpr fun call hc hs => ?_
        rw [file_of_mem hc] at hs
        exact hne file hf (of_decide_eq_true hs)
      exact (congrArg (· ++ _) hother).trans (ih hrest hf)

end FileAction

/-- The same end with the calls that have been made. -/
def withCalls (calls : List FileAction) :
    EStateM.Result Failure σ α → EStateM.Result Failure (σ × List FileAction) α
  | .ok answer store => .ok answer (store, calls)
  | .error failure store => .error failure (store, calls)

/-- The same access with its reads and writes noted in order. -/
def Access.logged (access : Access σ) : Access (σ × List FileAction) where
  find patterns := fun state => withCalls state.2 (access.find patterns state.1)
  read file := fun state => withCalls (state.2 ++ [.read file]) (access.read file state.1)
  write file text := fun state => withCalls (state.2 ++ [.write file]) (access.write file text state.1)

/-- That an action makes these calls in order, all of them if it succeeds, where `logged` is the action
with its calls noted. -/
def Action.Makes (calls : List FileAction) (action : Action σ α)
    (logged : Action (σ × List FileAction) α) : Prop :=
  ∀ store log, ∃ made, made <+: calls ∧ logged (store, log) = withCalls (log ++ made) (action store) ∧
    ∀ answer after, action store = .ok answer after → made = calls

namespace Action

theorem makes_pure (answer : α) : Makes (σ := σ) [] (pure answer) (pure answer) :=
  fun store log => ⟨[], List.prefix_rfl, by rw [List.append_nil]; rfl, fun _ _ _ => rfl⟩

theorem makes_throw (failure : Failure) (calls : List FileAction) :
    Makes (σ := σ) (α := α) calls (throw failure) (throw failure) :=
  fun store log => ⟨[], List.nil_prefix, by rw [List.append_nil]; rfl, fun _ _ h => by cases h⟩

theorem makes_read (access : Access σ) (file : Path) :
    Makes [.read file] (access.read file) (access.logged.read file) :=
  fun _ _ => ⟨[.read file], List.prefix_rfl, rfl, fun _ _ _ => rfl⟩

theorem makes_write (access : Access σ) (file : Path) (text : Text) :
    Makes [.write file] (access.write file text) (access.logged.write file text) :=
  fun _ _ => ⟨[.write file], List.prefix_rfl, rfl, fun _ _ _ => rfl⟩

theorem makes_bind {β : Type} {first second : List FileAction} {action : Action σ α}
    {logged : Action (σ × List FileAction) α} {next : α → Action σ β}
    {loggedNext : α → Action (σ × List FileAction) β} (h : Makes first action logged)
    (hnext : ∀ answer, Makes second (next answer) (loggedNext answer)) :
    Makes (first ++ second) (action >>= next) (logged >>= loggedNext) := by
  intro store log
  obtain ⟨made, hmade, hlogged, hall⟩ := h store log
  simp only [bind, EStateM.bind, hlogged]
  cases haction : action store with
  | error failure after =>
    exact ⟨made, hmade.trans (List.prefix_append _ _), rfl, fun _ _ h => by cases h⟩
  | ok answer after =>
    obtain ⟨more, hmore, hrun, hrest⟩ := hnext answer after (log ++ made)
    rw [hall answer after haction] at hrun ⊢
    refine ⟨first ++ more, (List.prefix_append_right_inj first).mpr hmore, ?_, ?_⟩
    · rw [← List.append_assoc]
      exact hrun
    · intro result later hresult
      rw [hrest result later hresult]

end Action

namespace Session

theorem makes_commitFiles (access : Access σ) (ledger : Ledger) (files : List Path) :
    Action.Makes (FileAction.ofFiles files) (commitFiles access ledger files)
      (commitFiles access.logged ledger files) := by
  induction files with
  | nil => exact Action.makes_pure _
  | cons file rest ih =>
    have hresolve : Action.Makes ([.read file] ++ []) (resolve access ledger file)
        (resolve access.logged ledger file) := by
      refine Action.makes_bind (Action.makes_read access file) fun content => ?_
      cases ledger.resolve file content with
      | error failure => exact Action.makes_throw _ _
      | ok resolved => exact Action.makes_pure _
    have hrest (resolved : Outcome × Text) := Action.makes_bind
      (Action.makes_write access file resolved.2) fun _ =>
        Action.makes_bind ih fun others => Action.makes_pure (resolved.1 :: others)
    have hrun := Action.makes_bind hresolve hrest
    rw [List.append_nil, List.append_nil, ← List.append_assoc] at hrun
    exact hrun

/-- That a commit reads and writes its files alone, each at most once, and exactly once if it succeeds. -/
def CommitsOnce (access : Access σ) (session : Session) (store : σ) : Prop :=
  ∃ calls, session.commit access.logged (store, []) = withCalls calls (session.commit access store) ∧
    (∀ call ∈ calls, call.file ∈ session.files) ∧
    ∀ file ∈ session.files, FileAction.onFile calls file <+: [.read file, .write file] ∧
      ∀ report after, session.commit access store = .ok report after →
        FileAction.onFile calls file = [.read file, .write file]

theorem commitsOnce_of_distinct (access : Access σ) {session : Session}
    (hd : Path.Distinct session.files) (store : σ) : CommitsOnce access session store := by
  have hmakes : Action.Makes (FileAction.ofFiles session.files ++ []) (session.commit access)
      (session.commit access.logged) :=
    Action.makes_bind (makes_commitFiles access session.staging.ledger session.files) fun files =>
      Action.makes_pure (Report.mk files)
  rw [List.append_nil] at hmakes
  obtain ⟨calls, hcalls, hrun, hall⟩ := hmakes store []
  refine ⟨calls, hrun, fun call hc => ?_, fun file hf => ⟨?_, fun report after hok => ?_⟩⟩
  · obtain ⟨file, hf, hcall⟩ := List.mem_flatMap.mp (hcalls.subset hc)
    exact FileAction.file_of_mem hcall ▸ hf
  · rw [← FileAction.onFile_ofFiles hd hf]
    exact hcalls.filter _
  · rw [hall report after hok, FileAction.onFile_ofFiles hd hf]

/-- The files of a session differ exactly if all repetitions of a file are listed next to each other. Then
each file is read and written once in a commit, which leaves in it what a preview reported as long as the
access is faithful. -/
theorem files_distinct_iff_grouped (access : Access σ) {patterns : List Text} {found : List Path}
    {store opened : σ} (hfind : access.find patterns store = .ok found opened) (hne : found ≠ []) :
    ∃ session, ofPatterns access patterns store = .ok session opened ∧
      session.staging = .empty ∧
      (∀ path, (∃ file ∈ session.files, file.Same path) ↔ ∃ file ∈ found, file.Same path) ∧
      (Path.Distinct session.files ↔ Path.Grouped found) ∧
      (Path.Grouped found → ∀ staging now,
        let staged : Session := ⟨session.files, staging⟩
        CommitsOnce access staged now ∧
        ∀ contents reached, access.Faithful contents Path.Same reached → reached now →
          Foretold access staged.files (staged.preview access now)
            (staged.commit access ((staged.preview access).after now))) := by
  have hmerged : Path.mergeAdjacent found ≠ [] := by
    obtain ⟨first, rest, rfl⟩ := List.exists_cons_of_ne_nil hne
    exact List.cons_ne_nil _ _
  refine ⟨⟨Path.mergeAdjacent found, .empty⟩, ?_, rfl, fun path => ⟨?_, ?_⟩,
    Path.distinct_mergeAdjacent_iff, fun hgrouped staging now => ?_⟩
  · simp only [ofPatterns, bind, EStateM.bind, hfind, List.isEmpty_iff, if_neg hmerged]
    rfl
  · rintro ⟨file, hf, hs⟩
    exact ⟨file, (Path.mergeAdjacent_sublist found).subset hf, hs⟩
  · rintro ⟨file, hf, hs⟩
    obtain ⟨kept, hkept, hsame⟩ := Path.exists_same_of_mem_mergeAdjacent hf
    exact ⟨kept, hkept, hsame.trans hs⟩
  · intro staged
    have hd : Path.Distinct staged.files := Path.distinct_mergeAdjacent_iff.mpr hgrouped
    exact ⟨commitsOnce_of_distinct access hd now, fun contents reached hfaithful hnow =>
      foretold_of_pairwise hfaithful staged hd hnow⟩

/-- A listing in which two spellings of one file stand next to each other. -/
theorem files_distinct_of_neighbours :
    let a : Path := ⟨['a']⟩
    let b : Path := ⟨['b']⟩
    let access := Scripted.access MemoryStore.access
    let store : Scripted MemoryStore :=
      ⟨(MemoryStore.empty.set a ['x']).set b ['y', 'x'], some [b, ⟨['b', '/']⟩, a], [], []⟩
    let edit : Edit := ⟨b, .wholeFile, .first, ['x'], ['x', 'x']⟩
    let session : Session := ⟨[b, a], ⟨[edit], []⟩⟩
    access.find [] store = .ok [b, ⟨['b', '/']⟩, a] store ∧
    ofPatterns access [] store = .ok ⟨[b, a], .empty⟩ store ∧
    CommitsOnce access session store ∧
    Foretold access [b, a] (session.preview access store)
      (session.commit access ((session.preview access).after store)) := by
  intro a b access store edit session
  have hfind : access.find [] store = .ok [b, ⟨['b', '/']⟩, a] store := rfl
  have hopen : ofPatterns access [] store = .ok ⟨[b, a], .empty⟩ store := rfl
  obtain ⟨opened, hopened, -, -, hiff, honce⟩ :=
    files_distinct_iff_grouped access hfind (List.cons_ne_nil _ _)
  have hsession : opened = ⟨[b, a], .empty⟩ := by
    rw [hopen] at hopened
    exact (EStateM.Result.ok.inj hopened).1.symm
  have hd : Path.Distinct [b, a] := show List.Pairwise (fun p q => ¬ p.Same q) [b, a] by decide
  rw [hsession] at hiff honce
  obtain ⟨hcommits, hforetold⟩ := honce (hiff.mp hd) ⟨[edit], []⟩ store
  exact ⟨hfind, hopen, hcommits, hforetold _ _ MemoryStore.faithful_scripted ⟨rfl, rfl⟩⟩

/-- A file that is listed again behind another one. Every pass stages its edits twice, and a commit writes
it twice, each time with both edits: a preview tells of three letters, and five are written. -/
theorem repeated_file_written_twice :
    let a : Path := ⟨['a']⟩
    let b : Path := ⟨['b']⟩
    let access := Scripted.access MemoryStore.access
    let store : Scripted MemoryStore :=
      ⟨(MemoryStore.empty.set a ['x']).set b ['y'], some [a, b, a], [], []⟩
    let opened : Session := ⟨[a, b, a], .empty⟩
    let passes : List (Pass Unit) :=
      [.files fun _ memo => .call ⟨['x'], ['x', 'x'], false⟩ fun _ => .done memo]
    let session : Session :=
      ⟨opened.files, (opened.afterPasses access passes ⟨store, opened.staging, ()⟩).staging⟩
    (ofPatterns access []).answer? store = some opened ∧ ¬ Path.Distinct opened.files ∧
    ((session.preview access).answer? store).map (fun report => report.files.map Outcome.content) =
      some [some ['x', 'x', 'x'], some ['y'], some ['x', 'x', 'x']] ∧
    ((session.commit access).answer? store).isSome = true ∧
    ((session.commit access).after store).inner.writes = [a, b, a] ∧
    ((session.commit access).after store).inner.get? a = some ['x', 'x', 'x', 'x', 'x'] := by
  intro a b access store opened passes session
  have hrepeated : ¬ Path.Distinct opened.files :=
    show ¬ List.Pairwise (fun p q => ¬ p.Same q) [a, b, a] by decide
  exact ⟨rfl, hrepeated, by decide +kernel, by decide +kernel, by decide +kernel, by decide +kernel⟩

end Session

end BulkEdit
