import BulkEdit.CommandLine.Basic
import BulkEdit.Proofs.Disk.Rehearsal

/-!
# Dry runs

A run prepares on the disk as it is, whether it is a dry one or not, and ends as its replay does. So a dry
run changes nothing and fails exactly as the run in its place does. What it reports of a file holds after
that run as long as no other path of the session leads to the same file.
-/

namespace BulkEdit.CommandLine

open Disk (Location Tree Guard)

variable {α β : Type}

/-- The disk that a job leaves, whether it ends well or not. -/
def diskAfter (job : Job α) (console : Console) : Tree :=
  match job console with
  | .ok _ later => later.disk
  | .error _ later => later.disk

def KeepsDisk (job : Job α) : Prop := ∀ console, diskAfter job console = console.disk

theorem keepsDisk_pure (answer : α) : KeepsDisk (pure answer) := fun _ => rfl

theorem keepsDisk_throw (problem : Problem) : KeepsDisk (throw problem : Job α) := fun _ => rfl

theorem keepsDisk_get : KeepsDisk (get : Job Console) := fun _ => rfl

theorem keepsDisk_warn (line : Text) : KeepsDisk (warn line) := fun _ => rfl

theorem keepsDisk_bind {job : Job α} {next : α → Job β} (h : KeepsDisk job)
    (hnext : ∀ answer, KeepsDisk (next answer)) : KeepsDisk (job >>= next) := by
  intro console
  have hdisk := h console
  rw [diskAfter] at hdisk
  simp only [diskAfter, bind, EStateM.bind]
  cases hjob : job console with
  | error problem later =>
    rw [hjob] at hdisk
    exact hdisk
  | ok answer later =>
    rw [hjob] at hdisk
    exact (hnext answer later).trans hdisk

theorem keepsDisk_onDisk {action : Action Tree α} (h : ∀ tree, action.after tree = tree) :
    KeepsDisk (onDisk action) := by
  intro console
  have hafter := h console.disk
  rw [Action.after] at hafter
  simp only [diskAfter, onDisk]
  cases haction : action console.disk <;> rw [haction] at hafter <;> exact hafter

theorem keepsDisk_resolveRoot (surroundings : Surroundings) (given : Option Path) :
    KeepsDisk (resolveRoot surroundings given) := by
  cases given with
  | none =>
    rw [resolveRoot, surroundingRoot]
    cases surroundings.root with
    | none => exact keepsDisk_pure _
    | some named =>
      refine keepsDisk_bind keepsDisk_get fun console => ?_
      cases console.disk.resolveFrom surroundings.folder ⟨named⟩ with
      | ok root => exact keepsDisk_pure _
      | error fault => exact keepsDisk_bind (keepsDisk_warn _) fun _ => keepsDisk_pure _
  | some path =>
    rw [resolveRoot]
    refine keepsDisk_bind keepsDisk_get fun console => ?_
    cases console.disk.resolveFrom surroundings.folder path with
    | ok root => exact keepsDisk_pure _
    | error fault => exact keepsDisk_throw _

theorem keepsDisk_loadPlan (surroundings : Surroundings) (path : Path) :
    KeepsDisk (loadPlan surroundings path) := by
  refine keepsDisk_bind keepsDisk_get fun console => ?_
  cases Plan.ofFile console.disk surroundings.folder path with
  | ok plan => exact keepsDisk_pure _
  | error failure => exact keepsDisk_throw _

theorem keepsDisk_guardOf (root : Location) : KeepsDisk (guardOf root) := by
  refine keepsDisk_bind keepsDisk_get fun console => ?_
  cases Guard.ofRoot console.disk root.path with
  | ok guard => exact keepsDisk_pure _
  | error rejection => exact keepsDisk_throw _

/-- The first half of a run, which loads the plan and stages its rules. -/
def prepare (surroundings : Surroundings) (path : Path) (root : Option Path) :
    Job (Guard × Plan.Staged) := do
  let root ← resolveRoot surroundings root
  let plan ← loadPlan surroundings path
  let guard ← guardOf root
  let staged ← onDisk (plan.stage guard.access)
  pure (guard, staged)

/-- The second half of a run, which tells what was staged and replays it. -/
def finish (path : Path) (dryRun json : Bool) (guard : Guard) (staged : Plan.Staged) : Job Unit := do
  if json then
    let report ← replay guard dryRun staged.session
    say (reportJson report).text
  else
    (stagedLines guard path staged).forM say
    if dryRun then say "[DRY RUN - nothing will be written]".toList
    let report ← replay guard dryRun staged.session
    (summaryLines guard.rootPath dryRun report).forM say

theorem runApply_eq (surroundings : Surroundings) (path : Path) (root : Option Path)
    (dryRun json : Bool) :
    runApply surroundings path root dryRun json =
      (do
        let prepared ← prepare surroundings path root
        finish path dryRun json prepared.1 prepared.2) := by
  simp only [prepare, bind_assoc, pure_bind]
  rfl

theorem keepsDisk_prepare (surroundings : Surroundings) (path : Path) (root : Option Path) :
    KeepsDisk (prepare surroundings path root) := by
  refine keepsDisk_bind (keepsDisk_resolveRoot _ _) fun root => ?_
  refine keepsDisk_bind (keepsDisk_loadPlan _ _) fun plan => ?_
  refine keepsDisk_bind (keepsDisk_guardOf root) fun guard => ?_
  refine keepsDisk_bind (keepsDisk_onDisk fun tree => ?_) fun staged => keepsDisk_pure _
  exact plan.keeps_stage (P := (· = tree)) (guard.keeps_find _) guard.keeps_read tree rfl

theorem onDisk_ok {action : Action Tree α} {console later : Console} {answer : α}
    (h : onDisk action console = .ok answer later) :
    action console.disk = .ok answer later.disk := by
  rw [onDisk] at h
  split at h
  next haction =>
    cases h
    exact haction
  next => cases h

theorem exists_stage_of_prepare {surroundings : Surroundings} {path : Path} {root : Option Path}
    {console later : Console} {guard : Guard} {staged : Plan.Staged}
    (h : prepare surroundings path root console = .ok (guard, staged) later) :
    ∃ (plan : Plan) (tree after : Tree), plan.stage guard.access tree = .ok staged after := by
  obtain ⟨location, between, -, h⟩ := bind_ok h
  obtain ⟨plan, between, -, h⟩ := bind_ok h
  obtain ⟨guard, between, -, h⟩ := bind_ok h
  obtain ⟨staged, after, hstage, h⟩ := bind_ok h
  cases h
  exact ⟨plan, between.disk, later.disk, onDisk_ok hstage⟩

/-- That a job prints and does nothing else. -/
def Prints (job : Job Unit) : Prop :=
  ∀ console, ∃ later, job console = .ok () later ∧ later.disk = console.disk

theorem prints_pure : Prints (pure ()) := fun console => ⟨console, rfl, rfl⟩

theorem prints_say (line : Text) : Prints (say line) := fun _ => ⟨_, rfl, rfl⟩

theorem prints_warn (line : Text) : Prints (warn line) := fun _ => ⟨_, rfl, rfl⟩

theorem prints_bind {job : Job Unit} {next : Unit → Job Unit} (h : Prints job)
    (hnext : ∀ answer, Prints (next answer)) : Prints (job >>= next) := by
  intro console
  obtain ⟨between, hjob, hbetween⟩ := h console
  obtain ⟨later, hlast, hlater⟩ := hnext () between
  refine ⟨later, ?_, hlater.trans hbetween⟩
  simp only [bind, EStateM.bind, hjob, hlast]

theorem prints_forM {job : Text → Job Unit} (h : ∀ line, Prints (job line)) (lines : List Text) :
    Prints (lines.forM job) := by
  induction lines with
  | nil => exact prints_pure
  | cons line rest ih => exact prints_bind (h line) fun _ => ih

/-- What a run does to the disk at last. -/
def replayed (guard : Guard) (dryRun : Bool) (session : Session) : Action Tree Report :=
  if dryRun then session.preview guard.access else session.commit guard.access

variable {guard : Guard} {dryRun : Bool} {session : Session} {console : Console}

theorem replay_of_ok {report : Report} {disk : Tree}
    (h : replayed guard dryRun session console.disk = .ok report disk) :
    replay guard dryRun session console = .ok report { console with disk } := by
  rw [replayed] at h
  simp only [replay, h]

theorem replay_of_error {failure : Failure} {disk : Tree}
    (h : replayed guard dryRun session console.disk = .error failure disk) :
    ∃ later, replay guard dryRun session console = .error (.batch failure) later ∧
      later.disk = disk := by
  obtain ⟨later, hwarn, hdisk⟩ :=
    prints_forM prints_warn (failureLines guard dryRun failure) { console with disk }
  refine ⟨later, ?_, hdisk⟩
  rw [replayed] at h
  simp only [replay, h, hwarn]

theorem finish_eq (path : Path) (dryRun json : Bool) (guard : Guard) (staged : Plan.Staged) :
    ∃ (opening : Job Unit) (closing : Report → Job Unit), Prints opening ∧
      (∀ report, Prints (closing report)) ∧
      finish path dryRun json guard staged = (do
        opening
        let report ← replay guard dryRun staged.session
        closing report) := by
  cases json with
  | true => exact ⟨pure (), fun report => say (reportJson report).text, prints_pure,
      fun report => prints_say _, rfl⟩
  | false =>
    refine ⟨do
      (stagedLines guard path staged).forM say
      if dryRun then say "[DRY RUN - nothing will be written]".toList,
      fun report => (summaryLines guard.rootPath dryRun report).forM say,
      prints_bind (prints_forM prints_say _) fun _ => ?_, fun report => prints_forM prints_say _, ?_⟩
    · cases dryRun with
      | true => exact prints_say _
      | false => exact prints_pure
    · rw [bind_assoc]
      cases dryRun <;> rfl

theorem finish_of_ok (path : Path) (json : Bool) {staged : Plan.Staged} {report : Report}
    {disk : Tree} (h : replayed guard dryRun staged.session console.disk = .ok report disk) :
    ∃ later, finish path dryRun json guard staged console = .ok () later ∧ later.disk = disk := by
  obtain ⟨opening, closing, hopening, hclosing, heq⟩ := finish_eq path dryRun json guard staged
  obtain ⟨opened, hopened, hdisk⟩ := hopening console
  rw [← hdisk] at h
  obtain ⟨later, hclosed, hlater⟩ := hclosing report { opened with disk }
  refine ⟨later, ?_, hlater⟩
  simp only [heq, bind, EStateM.bind, hopened, replay_of_ok h, hclosed]

theorem finish_of_error (path : Path) (json : Bool) {staged : Plan.Staged} {failure : Failure}
    {disk : Tree} (h : replayed guard dryRun staged.session console.disk = .error failure disk) :
    ∃ later, finish path dryRun json guard staged console = .error (.batch failure) later ∧
      later.disk = disk := by
  obtain ⟨opening, closing, hopening, -, heq⟩ := finish_eq path dryRun json guard staged
  obtain ⟨opened, hopened, hdisk⟩ := hopening console
  rw [← hdisk] at h
  obtain ⟨later, hreplay, hlater⟩ := replay_of_error h
  refine ⟨later, ?_, hlater⟩
  simp only [heq, bind, EStateM.bind, hopened, hreplay]

/-- In JSON the report is all that is printed. -/
theorem finish_json (path : Path) {staged : Plan.Staged} {report : Report} {disk : Tree}
    (h : replayed guard dryRun staged.session console.disk = .ok report disk) :
    finish path dryRun true guard staged console =
      .ok () ⟨disk, console.out ++ (reportJson report).text ++ ['\n'], console.err⟩ := by
  simp only [finish, bind, EStateM.bind, if_pos, replay_of_ok h]
  rfl

section Prepared

variable {surroundings : Surroundings} {path : Path} {root : Option Path}

theorem runApply_of_problem {problem : Problem} {shown : Console}
    (h : prepare surroundings path root console = .error problem shown) (dryRun json : Bool) :
    runApply surroundings path root dryRun json console = .error problem shown := by
  simp only [runApply_eq, bind, EStateM.bind, h]

theorem runApply_of_prepared {staged : Plan.Staged} {between : Console}
    (h : prepare surroundings path root console = .ok (guard, staged) between) (dryRun json : Bool) :
    runApply surroundings path root dryRun json console =
      finish path dryRun json guard staged between := by
  simp only [runApply_eq, bind, EStateM.bind, h]

end Prepared

/-- A dry run leaves the disk as it is and reports the preview. The run in its place fails with the same
problem or ends well too, and then leaves in every file what the edits make of it that are staged for the
paths leading to it, one path after the other: what was reported, if there is only one such path. -/
theorem dry_run_foretells_run (surroundings : Surroundings) (path : Path) (root : Option Path)
    (console : Console) :
    match prepare surroundings path root console with
    | .error problem shown => shown.disk = console.disk ∧ ∀ dryRun json,
        runApply surroundings path root dryRun json console = .error problem shown
    | .ok (guard, staged) between =>
      match staged.session.preview guard.access console.disk with
      | .error failure _ => ∀ dryRun json, ∃ shown,
          runApply surroundings path root dryRun json console = .error (.batch failure) shown ∧
          (dryRun = true → shown.disk = console.disk)
      | .ok report _ => report.files.map Outcome.file = staged.session.files ∧
          runApply surroundings path root true true console = .ok ()
            ⟨console.disk, between.out ++ (reportJson report).text ++ ['\n'], between.err⟩ ∧
          ∀ json, (∃ shown, runApply surroundings path root true json console = .ok () shown ∧
              shown.disk = console.disk) ∧
            ∃ done, runApply surroundings path root false json console = .ok () done ∧
              ∀ outcome ∈ report.files,
                guard.ReadsBack staged.session console.disk done.disk outcome := by
  have hdisk := keepsDisk_prepare surroundings path root console
  rw [diskAfter] at hdisk
  cases hprepare : prepare surroundings path root console with
  | error problem shown =>
    rw [hprepare] at hdisk
    exact ⟨hdisk, runApply_of_problem hprepare⟩
  | ok prepared between =>
    obtain ⟨guard, staged⟩ := prepared
    rw [hprepare] at hdisk
    -- Both runs have come to the same console, and differ in what they replay from here.
    obtain ⟨plan, tree, after, hstage⟩ := exists_stage_of_prepare hprepare
    have hrun := runApply_of_prepared hprepare
    have hcommit := Guard.commit_of_preview guard between.disk (Guard.stage_ok hstage).2
    dsimp only at hdisk ⊢
    rw [hdisk] at hcommit
    cases hpreview : staged.session.preview guard.access console.disk with
    | error failure shown =>
      rw [hpreview] at hcommit
      obtain ⟨rfl, done, hcommitted⟩ := hcommit
      intro dryRun json
      have hreplayed : ∃ after, replayed guard dryRun staged.session between.disk =
          .error failure after ∧ (dryRun = true → after = console.disk) := by
        rw [hdisk]
        cases dryRun with
        | true => exact ⟨console.disk, hpreview, fun _ => rfl⟩
        | false => exact ⟨done, hcommitted, fun h => nomatch h⟩
      obtain ⟨after, hreplayed, hafter⟩ := hreplayed
      obtain ⟨later, hfinish, hlater⟩ := finish_of_error path json hreplayed
      exact ⟨later, (hrun dryRun json).trans hfinish, fun h => hlater.trans (hafter h)⟩
    | ok report shown =>
      rw [hpreview] at hcommit
      obtain ⟨rfl, hfiles, written, done, hcommitted, hreads⟩ := hcommit
      have hdry : replayed guard true staged.session between.disk = .ok report console.disk := by
        rw [hdisk]
        exact hpreview
      have hreal : replayed guard false staged.session between.disk = .ok written done := by
        rw [hdisk]
        exact hcommitted
      refine ⟨hfiles, (hrun true true).trans (finish_json path hdry), fun json => ⟨?_, ?_⟩⟩
      · obtain ⟨later, hfinish, hlater⟩ := finish_of_ok path json hdry
        exact ⟨later, (hrun true json).trans hfinish, hlater⟩
      · obtain ⟨later, hfinish, hlater⟩ := finish_of_ok path json hreal
        exact ⟨later, (hrun false json).trans hfinish, hlater ▸ hreads⟩

/-- A file and a link to it, for which a plan doubles the first letter. The dry run tells of two letters for
either path, and the run leaves three. -/
theorem linked_file_rewritten_twice :
    let planText := "files=['[ab]']\nmeta=['n','']\nrules=[['r','file','first','x','xx']]"
    let disk : Tree := ⟨[([['w']], .directory), ([['w'], ['p']], .file 420 (.text planText.toList)),
      ([['w'], ['a']], .file 420 (.text ['x'])), ([['w'], ['b']], .link ['a'])]⟩
    let apply (options : List Text) :=
      run ⟨[['w']], none⟩ (["apply".toList, "--plan=p".toList, "--json".toList] ++ options) disk
    let report (content : Option Text) : Report :=
      ⟨[⟨⟨"/w/a".toList⟩, some .wholeFile, 1, true, content⟩,
        ⟨⟨"/w/b".toList⟩, some .wholeFile, 1, true, content⟩]⟩
    apply ["--dry-run".toList] =
      (.done, ⟨disk, (reportJson (report (some ['x', 'x']))).text ++ ['\n'], []⟩) ∧
    apply [] = (.done, ⟨disk.put [['w'], ['a']] (.file 420 (.text ['x', 'x', 'x'])),
      (reportJson (report none)).text ++ ['\n'], []⟩) := by
  intro planText disk apply report
  exact ⟨by decide +kernel, by decide +kernel⟩

end BulkEdit.CommandLine
