import BulkEdit.Proofs.Access.Clearing
import BulkEdit.Proofs.Disk.Clearing
import BulkEdit.Proofs.Session.Accounting
import BulkEdit.Proofs.Session.Opening
import BulkEdit.Proofs.Text.Clearing

/-!
# Replacing a text for good

A text that has been replaced everywhere by one without its characters is gone. A session that replaces it
in all of its files once more finds the same files, reports none of them as changed, and leaves in them what
it read.
-/

namespace BulkEdit

variable {search replacement : Text}

/-- The edit of a call that replaces a text everywhere in a file. -/
def Edit.everywhere (search replacement : Text) (file : Path) : Edit :=
  ⟨file, .wholeFile, .every, search, replacement⟩

namespace Ledger

variable {file : Path} {files : List Path} {content : Text}

theorem ofFile_everywhere (files : List Path) (file : Path) :
    ofFile (files.map (Edit.everywhere search replacement)) file =
      (files.filter fun other => decide (other.Same file)).map
        (Edit.everywhere search replacement) := by
  rw [ofFile, List.filter_map]
  rfl

theorem not_isMixed_everywhere (files : List Path) (file : Path) :
    ¬ isMixed (files.map (Edit.everywhere search replacement)) file = true := by
  refine not_isMixed (g := .wholeFile) fun edit he => ?_
  rw [ofFile_everywhere] at he
  obtain ⟨other, -, rfl⟩ := List.mem_map.mp he
  rfl

/-- Edits for all listed files leave a content without the text as it is. -/
theorem replayed_everywhere_of_not_has (files : List Path) (file : Path)
    (h : ¬ content.has search = true) :
    replayed (files.map (Edit.everywhere search replacement)) file content = content := by
  rw [replayed, ofFile_everywhere]
  induction files.filter fun other => decide (other.Same file) with
  | nil => rfl
  | cons other rest ih =>
    rw [List.map_cons, List.foldl_cons]
    have hstep : FileEdits.replayEdit content (Edit.everywhere search replacement other) = content :=
      Text.replaceAll_of_not_has h replacement
    rw [hstep, ih]

theorem not_has_replayed_everywhere (hsearch : search ≠ []) (hreplacement : replacement ≠ [])
    (hapart : ∀ c ∈ replacement, c ∉ search) (hfile : file ∈ files) (content : Text) :
    ¬ (replayed (files.map (Edit.everywhere search replacement)) file content).has search = true := by
  -- Whatever stands before and behind, the first edit of the file clears it.
  have hmem : file ∈ files.filter fun other => decide (other.Same file) :=
    List.mem_filter.mpr ⟨hfile, decide_eq_true (Path.same_refl file)⟩
  obtain ⟨first, rest, hsplit⟩ := List.exists_cons_of_ne_nil (List.ne_nil_of_mem hmem)
  have hall : ∀ others : List Path, ∀ text : Text, ¬ text.has search = true →
      ¬ ((others.map (Edit.everywhere search replacement)).foldl FileEdits.replayEdit text).has
        search = true := by
    intro others text htext
    induction others with
    | nil => exact htext
    | cons other others ih =>
      have hstep : FileEdits.replayEdit text (Edit.everywhere search replacement other) = text :=
        Text.replaceAll_of_not_has htext replacement
      rw [List.map_cons, List.foldl_cons, hstep]
      exact ih
  rw [replayed, ofFile_everywhere, hsplit]
  exact hall rest _ (Text.not_has_replaceAll hsearch hreplacement hapart content)

end Ledger

namespace Session

section Clearing

variable {σ : Type} {access : Access σ} {mark : σ → Path → σ} {store : σ} {file : Path}
  {files : List Path}

/-- The pass that replaces a text everywhere in every file. -/
def everywherePass (access : Access σ) (search replacement : Text) (files : List Path) :
    Action (PassState σ Unit) Unit :=
  filePass access (fun _ => Script.calls [⟨search, replacement, true⟩]) files

/-- A session that replaces a text everywhere in what the patterns select and is committed. -/
def replaceEverywhere (access : Access σ) (patterns : List Text) (search replacement : Text) :
    Action σ Report := fun store =>
  match ofPatterns access patterns store with
  | .error failure later => .error failure later
  | .ok session opened =>
    match everywherePass access search replacement session.files ⟨opened, session.staging, ()⟩ with
    | .error failure state => .error failure state.store
    | .ok _ state => commit access ⟨session.files, state.staging⟩ state.store

theorem everywherePass_cons (rest : List Path) (state : PassState σ Unit) :
    everywherePass access search replacement (file :: rest) state =
      match access.read file state.store with
      | .error failure later => .error failure { state with store := later }
      | .ok _ later => everywherePass access search replacement rest
          ⟨later, state.staging.record (Edit.everywhere search replacement file), ()⟩ := by
  simp only [everywherePass, filePass, pass]
  cases access.read file state.store with
  | error failure later => rfl
  | ok content later =>
    simp only [visitAll, Script.calls, Script.run, FileView.perform_eq]
    rfl

/-- A pass that succeeds has read all files and staged the edit of each. -/
theorem everywherePass_ok (h : access.Clears search mark) {staging : Staging}
    {state : PassState σ Unit}
    (hrun : everywherePass access search replacement files ⟨store, staging, ()⟩ = .ok () state) :
    state.store = store ∧
      state.staging.ledger = staging.ledger ++ files.map (Edit.everywhere search replacement) := by
  induction files generalizing staging with
  | nil =>
    cases hrun
    exact ⟨rfl, (List.append_nil _).symm⟩
  | cons file rest ih =>
    rw [everywherePass_cons] at hrun
    cases hread : access.read file store with
    | error failure later =>
      rw [hread] at hrun
      cases hrun
    | ok content later =>
      rw [hread] at hrun
      obtain rfl := h.read hread
      obtain ⟨hstore, hledger⟩ := ih hrun
      exact ⟨hstore, hledger.trans (List.append_assoc _ _ _)⟩

theorem everywherePass_of_cleared (hclear : ∀ file ∈ files, access.Cleared search mark store file)
    (replacement : Text) (staging : Staging) :
    ∃ state, everywherePass access search replacement files ⟨store, staging, ()⟩ = .ok () state := by
  induction files generalizing staging with
  | nil => exact ⟨_, rfl⟩
  | cons file rest ih =>
    obtain ⟨⟨content, hread, -, -⟩, hrest⟩ := List.forall_mem_cons.mp hclear
    simp only [everywherePass_cons, hread]
    exact ih hrest _

/-- A commit that succeeds clears every file for which it writes texts without the text. -/
theorem cleared_of_commitFiles (h : access.Clears search mark) {ledger : Ledger}
    (hclean : ∀ file ∈ files, ∀ content, ¬ (ledger.replayed file content).has search = true)
    {later : σ} {outcomes : List Outcome}
    (hrun : commitFiles access ledger files store = .ok outcomes later) :
    ∀ file, file ∈ files ∨ access.Cleared search mark store file →
      access.Cleared search mark later file := by
  induction files generalizing store outcomes with
  | nil =>
    cases hrun
    exact fun file hfile => hfile.resolve_left List.not_mem_nil
  | cons first rest ih =>
    obtain ⟨hfirst, hrest⟩ := List.forall_mem_cons.mp hclean
    obtain ⟨resolved, read, hresolve, hrun⟩ := bind_ok hrun
    obtain ⟨_, written, hwrite, hrun⟩ := bind_ok hrun
    obtain ⟨others, after, hothers, hrun⟩ := bind_ok hrun
    cases hrun
    obtain ⟨content, hread, rfl⟩ := resolve_ok hresolve
    obtain rfl := h.read hread
    obtain ⟨hown, hkept⟩ := h.write hread (hfirst content) hwrite
    -- A file is still to be written, or it is clear already and the writes behind keep it so. The same file
    -- may come under several paths.
    refine fun file hfile => ih hrest hothers file ?_
    rcases hfile with hfile | hfile
    · rcases List.mem_cons.mp hfile with rfl | hfile
      · exact .inr hown
      · exact .inl hfile
    · exact .inr (hkept file hfile)

/-- A commit that leaves every file as it is read only writes back what it reads. -/
theorem commitFiles_of_cleared (h : access.Clears search mark) (ledger : Ledger)
    (hsingle : ∀ file, ¬ ledger.isMixed file = true)
    (hkeep : ∀ file content, ¬ content.has search = true → ledger.replayed file content = content)
    (hclear : ∀ file ∈ files, access.Cleared search mark store file) :
    ∃ outcomes, commitFiles access ledger files store = .ok outcomes (files.foldl mark store) ∧
      ∀ outcome ∈ outcomes, outcome.changed = false := by
  induction files generalizing store with
  | nil => exact ⟨[], rfl, fun _ ho => absurd ho List.not_mem_nil⟩
  | cons file rest ih =>
    obtain ⟨hfile, hrest⟩ := List.forall_mem_cons.mp hclear
    obtain ⟨outcomes, hothers, hunchanged⟩ :=
      ih fun other ho => h.cleared_mark hfile (hrest other ho)
    obtain ⟨content, hread, hfree, hwrite⟩ := hfile
    have hreplayed := hkeep file content hfree
    refine ⟨ledger.outcome file content :: outcomes, ?_, List.forall_mem_cons.mpr ⟨?_, hunchanged⟩⟩
    · simp only [commitFiles, resolve, bind, EStateM.bind, hread, Ledger.resolve_eq,
        if_neg (hsingle file), hreplayed, pure, EStateM.pure, hwrite, hothers, List.foldl_cons]
    · rw [Ledger.outcome, hreplayed]
      exact bne_self_eq_false content

/-- What a session that succeeded has committed. -/
theorem replaceEverywhere_ok (h : access.Clears search mark) {patterns : List Text} {done : σ}
    {report : Report} (hrun : replaceEverywhere access patterns search replacement store = .ok report done) :
    ∃ session opened outcomes, ofPatterns access patterns store = .ok session opened ∧
      commitFiles access (session.files.map (Edit.everywhere search replacement)) session.files
        opened = .ok outcomes done := by
  rw [replaceEverywhere] at hrun
  split at hrun
  next => cases hrun
  next session opened hopen =>
    split at hrun
    next => cases hrun
    next state hpass =>
      obtain ⟨hstore, hledger⟩ := everywherePass_ok h hpass
      rw [staging_of_ofPatterns hopen] at hledger
      obtain ⟨outcomes, after, hcommit, hrun⟩ := bind_ok hrun
      cases hrun
      rw [hstore, hledger] at hcommit
      exact ⟨session, opened, outcomes, hopen, hcommit⟩

theorem replaceEverywhere_of_cleared (h : access.Clears search mark) (replacement : Text)
    {patterns : List Text} {session : Session}
    (hopen : ofPatterns access patterns store = .ok session store)
    (hclear : ∀ file ∈ session.files, access.Cleared search mark store file) :
    ∃ report, replaceEverywhere access patterns search replacement store =
        .ok report (session.files.foldl mark store) ∧
      report.files.map Outcome.file = session.files ∧
      ∀ outcome ∈ report.files, outcome.changed = false := by
  obtain ⟨state, hpass⟩ := everywherePass_of_cleared hclear replacement session.staging
  obtain ⟨hstore, hledger⟩ := everywherePass_ok h hpass
  rw [staging_of_ofPatterns hopen] at hledger
  obtain ⟨outcomes, hcommit, hunchanged⟩ :=
    commitFiles_of_cleared h (session.files.map (Edit.everywhere search replacement))
      (Ledger.not_isMixed_everywhere session.files)
      (fun file _ => Ledger.replayed_everywhere_of_not_has session.files file) hclear
  refine ⟨⟨outcomes⟩, ?_, Outcome.map_file_of_counts (counts_of_commitFiles hcommit), hunchanged⟩
  simp only [replaceEverywhere, hopen, hpass, commit, bind, EStateM.bind, hstore, hledger,
    Staging.empty, List.nil_append, hcommit]
  rfl

/-- That replacing everywhere in selected files is done once and for all: if it succeeds then the same
patterns open the same session again, and any session on files of that one which replaces the text once more
succeeds, reports no file as changed, and leaves `later` of its files. -/
def ReplacesForGood (access : Access σ) (search replacement : Text) (later : σ → List Path → σ) :
    Prop :=
  ∀ patterns store report done,
    replaceEverywhere access patterns search replacement store = .ok report done →
    ∃ session, ofPatterns access patterns store = .ok session store ∧
      ofPatterns access patterns done = .ok session done ∧
      ∀ patterns other opened, ofPatterns access patterns done = .ok other opened →
        other.files ⊆ session.files →
        ∃ again, replaceEverywhere access patterns search replacement done =
            .ok again (later done other.files) ∧
          again.files.map Outcome.file = other.files ∧
          ∀ outcome ∈ again.files, outcome.changed = false

/-- Where opening a session keeps the store, and a commit keeps what is found. -/
theorem replacesForGood (h : access.Clears search mark) (hsearch : search ≠ [])
    (hreplacement : replacement ≠ []) (hapart : ∀ c ∈ replacement, c ∉ search)
    (hopened : ∀ {patterns store session opened},
      ofPatterns access patterns store = .ok session opened → opened = store)
    (hfound : ∀ {patterns store session ledger outcomes done found},
      ofPatterns access patterns store = .ok session store →
      commitFiles access ledger session.files store = .ok outcomes done →
      access.find patterns store = .ok found store → access.find patterns done = .ok found done) :
    ReplacesForGood access search replacement fun store files => files.foldl mark store := by
  intro patterns store report done hrun
  obtain ⟨session, opened, outcomes, hopen, hcommit⟩ := replaceEverywhere_ok h hrun
  obtain rfl := hopened hopen
  have hclear : ∀ file ∈ session.files, access.Cleared search mark done file := fun file hfile =>
    cleared_of_commitFiles h (fun other ho content =>
      Ledger.not_has_replayed_everywhere hsearch hreplacement hapart ho content) hcommit file (.inl hfile)
  refine ⟨session, hopen, ofPatterns_of_find hopen fun found => hfound hopen hcommit, ?_⟩
  intro patterns other again hother hsub
  obtain rfl := hopened hother
  exact replaceEverywhere_of_cleared h replacement hother fun file hfile => hclear file (hsub hfile)

end Clearing

end Session

namespace MemoryStore

theorem keeps_read {P : MemoryStore → Prop} (path : Path) : (access.read path).Keeps P := by
  intro store hs
  rw [Action.after, access_read_eq]
  cases store.contents path <;> exact hs

theorem keeps_write_paths {paths : List Path} {path : Path} (hpath : path ∈ paths) (text : Text) :
    (access.write path text).Keeps fun store => store.files.map Prod.fst = paths := by
  intro store hs
  rw [Action.after, access_write_eq]
  cases store.refusesWrite path with
  | true => exact hs
  | false => exact (paths_written (hs ▸ hpath) text).trans hs

/-- Files in memory are found by their paths, which a commit does not change. -/
theorem find_after_commitFiles {patterns : List Text} {store done : MemoryStore} {session : Session}
    {ledger : Ledger} {outcomes : List Outcome} {found : List Path}
    (hopen : Session.ofPatterns access patterns store = .ok session store)
    (hcommit : Session.commitFiles access ledger session.files store = .ok outcomes done)
    (hfind : access.find patterns store = .ok found store) :
    access.find patterns done = .ok found done := by
  have hstored := Session.mem_stored_of_ofPatterns hopen
  have hpaths := Session.keeps_commitFiles ledger (fun file _ => keeps_read file)
    (fun file hfile text => keeps_write_paths (hstored file hfile) text) store rfl
  rw [Action.after_of_ok hcommit] at hpaths
  rw [find_eq] at hfind ⊢
  cases hselection : Selection.ofPatterns patterns with
  | error reason =>
    rw [hselection] at hfind
    cases hfind
  | ok selection =>
    rw [hselection] at hfind
    cases hfind
    simp only [matching, hpaths]

end MemoryStore

namespace Disk.Guard

/-- A commit changes what files hold, which is not what they are found by. -/
theorem find_after_commitFiles (guard : Guard) {patterns : List Text} {tree done : Tree}
    {files found : List Path} {ledger : Ledger} {outcomes : List Outcome}
    (hcommit : Session.commitFiles guard.access ledger files tree = .ok outcomes done)
    (hfind : guard.access.find patterns tree = .ok found tree) :
    guard.access.find patterns done = .ok found done := by
  have halike := Session.keeps_commitFiles (P := fun now => now.Alike tree) ledger
    (fun file (_ : file ∈ files) => guard.keeps_read file)
    (fun file _ text => keeps_write fun hnow _ hfile => hnow.put hfile _) tree (.refl tree)
  rw [Action.after_of_ok hcommit] at halike
  exact find_of_alike halike.symm hfind

end Disk.Guard

namespace Session

/-- A text that has been replaced everywhere by one without its characters is gone, so that replacing it
again changes nothing: not in the text, and not in the files of a later session, in memory or on disk, which
reports none of them as changed. Of writes in memory no more is left than that they are logged. -/
theorem nothing_left_to_replace (hsearch : search ≠ []) (hreplacement : replacement ≠ [])
    (hapart : ∀ c ∈ replacement, c ∉ search) :
    (∀ text, let once := Manner.every.replace search replacement text
      ¬ once.has search = true ∧ Manner.every.replace search replacement once = once) ∧
    ReplacesForGood MemoryStore.access search replacement MemoryStore.logged ∧
    ∀ guard : Disk.Guard, ReplacesForGood guard.access search replacement fun tree _ => tree := by
  refine ⟨fun text => ?_, ?_, fun guard => ?_⟩
  · have hgone := Text.not_has_replaceAll hsearch hreplacement hapart text
    exact ⟨hgone, Text.replaceAll_of_not_has hgone replacement⟩
  · have hmemory := replacesForGood (MemoryStore.clears search) hsearch hreplacement hapart
      (fun hopen => (ofPatterns_ok hopen).1) MemoryStore.find_after_commitFiles
    simpa only [MemoryStore.foldl_touch] using hmemory
  · have hdisk := replacesForGood (guard.clears search) hsearch hreplacement hapart
      (fun hopen => (Action.after_of_ok (Disk.Guard.find_of_ofPatterns hopen).1).symm.trans
        (guard.after_find _ _)) fun _ => guard.find_after_commitFiles
    simpa only [List.foldl_fixed] using hdisk

/-- Two texts in memory in which what is searched for overlaps itself, with a second session for one of them,
and a file on disk that a link leads to as well. -/
theorem nothing_left_of_overlapping_text :
    let a : Path := ⟨['a']⟩
    let b : Path := ⟨['b']⟩
    let search : Text := ['x', 'y', 'x']
    let replacement : Text := ['z']
    let access := MemoryStore.access
    let store := (MemoryStore.empty.set a ['x', 'y', 'x', 'y', 'x']).set b
      ['x', 'x', 'y', 'x', 'y', 'x', 'x']
    let done := { (MemoryStore.empty.set a ['z', 'y', 'x']).set b ['x', 'z', 'y', 'x', 'x'] with
      writes := [a, b] }
    let guard : Disk.Guard := ⟨[['w']], []⟩
    let disk (text : Text) : Disk.Tree := ⟨[([['w']], .directory),
      ([['w'], ['a']], .file 420 (.text text)), ([['w'], ['l']], .link ['a'])]⟩
    search ≠ [] ∧ replacement ≠ [] ∧ (∀ c ∈ replacement, c ∉ search) ∧
    (∃ report again, replaceEverywhere access [['*']] search replacement store = .ok report done ∧
      replaceEverywhere access [['b']] search replacement done =
        .ok again { done with writes := [a, b, b] } ∧
      again.files.map Outcome.file = [b] ∧ ∀ outcome ∈ again.files, outcome.changed = false) ∧
    ∃ report again, replaceEverywhere guard.access [['*']] search replacement
        (disk ['x', 'y', 'x', 'y', 'x']) = .ok report (disk ['z', 'y', 'x']) ∧
      replaceEverywhere guard.access [['*']] search replacement (disk ['z', 'y', 'x']) =
        .ok again (disk ['z', 'y', 'x']) ∧
      ∀ outcome ∈ again.files, outcome.changed = false := by
  intro a b search replacement access store done guard disk
  have hsearch : search ≠ [] := by decide
  have hreplacement : replacement ≠ [] := by decide
  have hapart : ∀ c ∈ replacement, c ∉ search := List.forall_mem_singleton.mpr (by decide)
  obtain ⟨-, hmemory, hdisk⟩ := nothing_left_to_replace hsearch hreplacement hapart
  refine ⟨hsearch, hreplacement, hapart, ?_, ?_⟩
  · let report : Report :=
      ⟨[⟨a, some .wholeFile, 1, true, none⟩, ⟨b, some .wholeFile, 1, true, none⟩]⟩
    have hrun : replaceEverywhere access [['*']] search replacement store = .ok report done := rfl
    have hopen : ofPatterns access [['*']] store = .ok ⟨[a, b], .empty⟩ store := rfl
    have hother : ofPatterns access [['b']] done = .ok ⟨[b], .empty⟩ done := rfl
    obtain ⟨session, hsession, -, hidle⟩ := hmemory _ _ _ _ hrun
    cases hopen.symm.trans hsession
    obtain ⟨again, hagain, hfiles, hunchanged⟩ := hidle _ _ _ hother (List.subset_cons_self a [b])
    exact ⟨report, again, hrun, hagain, hfiles, hunchanged⟩
  · let report : Report := ⟨[⟨⟨"/w/a".toList⟩, some .wholeFile, 1, true, none⟩,
      ⟨⟨"/w/l".toList⟩, some .wholeFile, 1, false, none⟩]⟩
    have hrun : replaceEverywhere guard.access [['*']] search replacement
        (disk ['x', 'y', 'x', 'y', 'x']) = .ok report (disk ['z', 'y', 'x']) :=
      Action.eq_ok_iff.mpr ⟨by decide +kernel, by decide +kernel⟩
    obtain ⟨session, -, hreopen, hidle⟩ := hdisk guard _ _ _ _ hrun
    obtain ⟨again, hagain, -, hunchanged⟩ := hidle _ _ _ hreopen (List.Subset.refl _)
    exact ⟨report, again, hrun, hagain, hunchanged⟩

end Session

end BulkEdit
