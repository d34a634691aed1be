import BulkEdit.Proofs.Plan.Entries
import BulkEdit.Proofs.Session.Commit

/-!
# Plans with rules of both scopes

A plan may have rules for files and rules for lines. The two meet only in a file in which some line is
edited, and a commit refuses the first such file. Up to there every file has its rules for files
applied, as if the plan had no other rules.
-/

namespace BulkEdit

open MemoryStore (access)

namespace Plan

/-- A text after the rules for files, in the order of the plan. -/
def rewrite (plan : Plan) (text : Text) : Text :=
  (plan.rules.filter fun rule => rule.scope == .wholeFile).foldl
    (fun text rule => rule.manner.replace rule.searchText rule.replacement text) text

/-- Whether some rule for lines edits some line of a file. -/
def editsLines (plan : Plan) (store : MemoryStore) (file : Path) : Bool :=
  (store.textOf file).lines.any fun line =>
    plan.rules.any fun rule => rule.scope == .line && rule.edits line

/-- The edits that the rules for files record for a file. -/
def fileEdits (plan : Plan) (file : Path) : List Edit :=
  (plan.rules.filter fun rule => rule.scope == .wholeFile).map (·.fileEdit file)

/-- The edits that the rules for lines record for a file. -/
def lineEdits (plan : Plan) (store : MemoryStore) (file : Path) : List Edit :=
  ((store.textOf file).lines.flatMap (lineEntries (plan.rulesFor .line) file)).map Entry.edit

variable {plan : Plan} {store : MemoryStore} {files : List Path} {file : Path}

theorem edit_fileEntries (plan : Plan) (file : Path) :
    (fileEntries (plan.rulesFor .wholeFile) file).map Entry.edit = plan.fileEdits file := by
  rw [fileEdits, ← map_fst_rulesFor, fileEntries, List.map_map, List.map_map]
  rfl

theorem mem_fileEdits {edit : Edit} (h : edit ∈ plan.fileEdits file) :
    edit.file = file ∧ edit.scope = .wholeFile := by
  obtain ⟨rule, -, rfl⟩ := List.mem_map.mp h
  exact ⟨rfl, rfl⟩

theorem mem_lineEdits {edit : Edit} (h : edit ∈ plan.lineEdits store file) :
    edit.file = file ∧ edit.scope.granularity = .line := by
  rw [lineEdits, ← lineEdits_lineCalls] at h
  exact MemoryStore.mem_lineEdits h

/-- The edits of one file are those of its rules for files and then those of its rules for lines. -/
theorem ofFile_entries (hd : Path.Distinct files) (hf : file ∈ files) :
    Ledger.ofFile ((plan.entries store files).map Entry.edit) file =
      plan.fileEdits file ++ plan.lineEdits store file := by
  have hsplit : (plan.entries store files).map Entry.edit =
      files.flatMap plan.fileEdits ++ files.flatMap (plan.lineEdits store) := by
    rw [entries, List.map_append, List.map_flatMap, List.map_flatMap]
    simp only [edit_fileEntries]
    rfl
  rw [hsplit, Ledger.ofFile_append,
    Ledger.ofFile_flatMap hd (fun _ _ _ he => (mem_fileEdits he).1) hf,
    Ledger.ofFile_flatMap hd (fun _ _ _ he => (mem_lineEdits he).1) hf]

theorem chain_eq_nil_iff {number : Nat} {old : Text} {rules : List (Rule × Nat)} :
    chain file number old rules = [] ↔ rules = [] := by
  cases rules <;> simp [chain]

theorem lineEdits_eq_nil_iff :
    plan.lineEdits store file = [] ↔ ¬ plan.editsLines store file = true := by
  have hline : ∀ line, lineEntries (plan.rulesFor .line) file line = [] ↔
      ∀ rule ∈ plan.rules, rule.scope = .line → ¬ rule.edits line = true := by
    intro line
    rw [lineEntries, chain_eq_nil_iff, List.filter_eq_nil_iff]
    exact forall_mem_rulesFor (p := fun rule => ¬ rule.edits line = true)
  simp [lineEdits, editsLines, hline]

/-- With a rule for files, the edits of a file are of both granularities if a line of it is edited. -/
theorem isMixed_entries (hd : Path.Distinct files) (hf : file ∈ files)
    (hrule : ∃ rule ∈ plan.rules, rule.scope = .wholeFile) :
    Ledger.isMixed ((plan.entries store files).map Entry.edit) file = plan.editsLines store file := by
  have hof : Ledger.ofFile ((plan.entries store files).map Entry.edit) file =
      plan.fileEdits file ++ plan.lineEdits store file := ofFile_entries hd hf
  rw [Bool.eq_iff_iff]
  constructor
  · intro hmixed
    by_contra hnone
    rw [lineEdits_eq_nil_iff.mpr hnone, List.append_nil] at hof
    have hwhole : ∀ edit ∈ Ledger.ofFile ((plan.entries store files).map Entry.edit) file,
        edit.scope.granularity = .wholeFile := by
      intro edit he
      rw [hof] at he
      rw [(mem_fileEdits he).2]
      rfl
    exact Ledger.not_isMixed hwhole hmixed
  · intro hedits
    obtain ⟨rule, hmem, hscope⟩ := hrule
    have hwhole : rule.fileEdit file ∈ plan.fileEdits file :=
      List.mem_map_of_mem (List.mem_filter.mpr ⟨hmem, beq_iff_eq.mpr hscope⟩)
    have hsome : plan.lineEdits store file ≠ [] := fun hnil =>
      lineEdits_eq_nil_iff.mp hnil hedits
    obtain ⟨line, hline⟩ := List.exists_mem_of_ne_nil _ hsome
    rw [Ledger.isMixed, hof, Bool.and_eq_true, List.any_eq_true, List.any_eq_true]
    exact ⟨⟨_, List.mem_append_left _ hwhole, rfl⟩,
      ⟨line, List.mem_append_right _ hline, beq_iff_eq.mpr (mem_lineEdits hline).2⟩⟩

/-- Where no line is edited, the rules for files are applied to the file. -/
theorem replayed_entries (hd : Path.Distinct files) (hf : file ∈ files)
    (hplan : ∀ rule ∈ plan.rules, rule.scope = .wholeFile → rule.manner ≠ .wholeLine)
    (hlines : ¬ plan.editsLines store file = true) (text : Text) :
    Ledger.replayed ((plan.entries store files).map Entry.edit) file text = plan.rewrite text := by
  rw [Ledger.replayed, ofFile_entries hd hf, lineEdits_eq_nil_iff.mpr hlines, List.append_nil,
    fileEdits, List.foldl_map, rewrite]
  refine List.foldl_ext _ _ _ fun content rule hrule => ?_
  obtain ⟨hmem, hscope⟩ := List.mem_filter.mp hrule
  exact if_neg (hplan rule hmem (beq_iff_eq.mp hscope))

theorem commitFault?_entries (hd : Path.Distinct files) (hf : file ∈ files)
    (hrule : ∃ rule ∈ plan.rules, rule.scope = .wholeFile) (hread : store.readFault? file = none)
    (hwrites : store.failingWrites = []) :
    store.commitFault? ((plan.entries store files).map Entry.edit) file =
      if plan.editsLines store file then some (.mixedGranularity file) else none := by
  rw [MemoryStore.commitFault?, MemoryStore.previewFault?, hread, isMixed_entries hd hf hrule,
    MemoryStore.refusesWrite_of_nil hwrites]
  cases plan.editsLines store file <;> rfl

theorem editsLines_iff :
    plan.editsLines store file = true ↔
      ∃ line ∈ (store.textOf file).lines, ∃ rule ∈ plan.rules,
        rule.scope = .line ∧ rule.edits line = true := by
  simp only [editsLines, List.any_eq_true, Bool.and_eq_true, beq_iff_eq]

/-- The files in front of the first in which a rule for lines edits a line. -/
def leading (plan : Plan) (store : MemoryStore) (files : List Path) : List Path :=
  files.takeWhile fun file => !plan.editsLines store file

theorem mem_leading (h : file ∈ plan.leading store files) :
    file ∈ files ∧ ¬ plan.editsLines store file = true := by
  have hclear := List.mem_takeWhile_imp h
  rw [Bool.not_eq_true'] at hclear
  exact ⟨(List.takeWhile_sublist _).subset h, Bool.eq_false_iff.mp hclear⟩

theorem leading_append_of_find? (h : files.find? (plan.editsLines store) = some file) :
    ∃ later, files = plan.leading store files ++ file :: later := by
  rw [List.find?_eq_head?_dropWhile_not, List.head?_eq_some_iff] at h
  obtain ⟨later, hlater⟩ := h
  exact ⟨later, by rw [← hlater]; exact List.takeWhile_append_dropWhile.symm⟩

theorem leading_of_find? (h : files.find? (plan.editsLines store) = none) :
    plan.leading store files = files := by
  refine List.takeWhile_eq_self_iff.mpr fun file hf => ?_
  rw [Bool.not_eq_true', Bool.eq_false_iff]
  exact List.find?_eq_none.mp h file hf

theorem commitFiles_entries (hd : Path.Distinct files)
    (hrule : ∃ rule ∈ plan.rules, rule.scope = .wholeFile)
    (hread : ∀ file ∈ files, store.readFault? file = none) (hwrites : store.failingWrites = []) :
    let ledger : Ledger := (plan.entries store files).map Entry.edit
    ∃ after, Wrote ledger (plan.leading store files) store after ∧
      Session.commitFiles access ledger files store =
        match files.find? (plan.editsLines store) with
        | some file => .error (.mixedGranularity file) after
        | none => .ok (files.map fun file => ledger.outcome file (store.textOf file)) after := by
  intro ledger
  let fault? : Path → Option Failure := fun file =>
    if plan.editsLines store file then some (.mixedGranularity file) else none
  have hnone : (fun file => (fault? file).isNone) = fun file => !plan.editsLines store file := by
    funext file
    simp only [fault?]
    cases plan.editsLines store file <;> rfl
  have hsome : (fun file => (fault? file).isSome) = plan.editsLines store := by
    funext file
    simp only [fault?]
    cases plan.editsLines store file <;> rfl
  obtain ⟨after, hwrote, hrun⟩ := Session.commitFiles_eq ledger hd fault? store.textOf
    (fun file hf => commitFault?_entries hd hf hrule (hread file hf) hwrites) (fun _ _ => rfl)
  rw [hnone] at hwrote
  rw [Session.findSome?_eq_bind_find?, hsome] at hrun
  refine ⟨after, hwrote, ?_⟩
  cases hfind : files.find? (plan.editsLines store) with
  | none => rw [hrun, hfind]; rfl
  | some file =>
    have hfault : fault? file = some (.mixedGranularity file) := if_pos (List.find?_some hfind)
    rw [hrun, hfind, Option.bind_some, hfault]

theorem get?_of_wrote (hd : Path.Distinct files)
    (hplan : ∀ rule ∈ plan.rules, rule.scope = .wholeFile → rule.manner ≠ .wholeLine)
    {after : MemoryStore}
    (hwrote : Wrote ((plan.entries store files).map Entry.edit) (plan.leading store files) store
      after) :
    ∀ file ∈ plan.leading store files, after.get? file = (store.get? file).map plan.rewrite := by
  intro file hleading
  obtain ⟨hf, hclear⟩ := mem_leading hleading
  obtain ⟨content, hcontent, hafter⟩ := hwrote.written file hleading
  rw [hafter, hcontent, replayed_entries hd hf hplan hclear, Option.map_some]

/-- What a commit of a plan with a rule for files comes to. It fails only for a file in which a rule for
lines edits a line, and then for the first such file. The files in front of it are rewritten by the rules
for files, and nothing else is written. -/
theorem commit_stops_at_edited_line {selection : Selection} (hvalid : plan.issues = [])
    (hrule : ∃ rule ∈ plan.rules, rule.scope = .wholeFile)
    (hselection : Selection.ofPatterns plan.patterns = .ok selection)
    (hfiles : store.matching selection ≠ []) (hreads : store.failingReads = [])
    (hwrites : store.failingWrites = []) :
    let files := store.matching selection
    let written := plan.leading store files
    ∃ staged after, plan.stage access store = .ok staged store ∧
      ((∃ failure stopped, staged.session.commit access store = .error failure stopped) ↔
        ∃ file ∈ files, ∃ line ∈ (store.textOf file).lines, ∃ rule ∈ plan.rules,
          rule.scope = .line ∧ rule.edits line = true) ∧
      after.writes = store.writes ++ written ∧
      (∀ file ∈ written, after.get? file = (store.get? file).map plan.rewrite) ∧
      (∀ path, (∀ file ∈ written, ¬ file.Same path) → after.get? path = store.get? path) ∧
      match files.find? (plan.editsLines store) with
      | some file =>
        staged.session.commit access store = .error (.mixedGranularity file) after ∧
          ∃ later, files = written ++ file :: later ∧
            ∀ other ∈ file :: later, after.get? other = store.get? other
      | none =>
        (∃ report, staged.session.commit access store = .ok report after) ∧ written = files := by
  intro files written
  have hplan := manner_ne_wholeLine_of_valid hvalid
  have hd : Path.Distinct files := store.distinct_matching selection
  have hread : ∀ file ∈ files, store.readFault? file = none := fun file hf =>
    MemoryStore.readFault?_of_mem (List.mem_filter.mp hf).1 hreads
  obtain ⟨staging, hledger, hstage⟩ := stage_of_readable plan hplan hselection hfiles hread
  obtain ⟨after, hwrote, hrun⟩ := commitFiles_entries hd hrule hread hwrites
  rw [← hledger] at hrun
  have hedited : (∃ file ∈ files, ∃ line ∈ (store.textOf file).lines, ∃ rule ∈ plan.rules,
      rule.scope = .line ∧ rule.edits line = true) ↔
        (files.find? (plan.editsLines store)).isSome = true := by
    simp only [List.find?_isSome, editsLines_iff]
  refine ⟨_, after, hstage, ?_, hwrote.log, get?_of_wrote hd hplan hwrote, hwrote.others, ?_⟩
  · rw [hedited, Session.commit_eq, hrun]
    cases files.find? (plan.editsLines store) <;> simp
  · rw [Session.commit_eq, hrun]
    cases hfind : files.find? (plan.editsLines store) with
    | none => exact ⟨⟨_, rfl⟩, leading_of_find? hfind⟩
    | some file =>
      obtain ⟨later, hlater⟩ := leading_append_of_find? hfind
      refine ⟨rfl, later, hlater, fun other ho => hwrote.others other fun file hf => ?_⟩
      rw [hlater] at hd
      exact (List.pairwise_append.mp hd).2.2 file hf other ho

/-- The second of three files has a line to edit, so that only the first is written. -/
theorem commit_stops_at_second_file :
    let a : Path := ⟨['a']⟩
    let b : Path := ⟨['b']⟩
    let c : Path := ⟨['c']⟩
    let plan : Plan := ⟨[], none, [['*']],
      [⟨['l'], .line, .first, some ['y'], ['z'], some [2], none⟩,
        ⟨['f'], .wholeFile, .every, some ['x'], ['w'], none, none⟩]⟩
    let store := ((MemoryStore.empty.set a ['x', 'y', 'x']).set b ['x', '\n', 'y']).set c ['x']
    plan.issues = [] ∧ (∃ rule ∈ plan.rules, rule.scope = .wholeFile) ∧
    ∃ selection, Selection.ofPatterns plan.patterns = .ok selection ∧
      store.matching selection = [a, b, c] ∧
      ∃ staged after, plan.stage access store = .ok staged store ∧
        staged.session.commit access store = .error (.mixedGranularity b) after ∧
        after.writes = [a] ∧ after.get? a = some ['w', 'y', 'w'] ∧
        after.get? b = some ['x', '\n', 'y'] ∧ after.get? c = some ['x'] := by
  intro a b c plan store
  have hvalid : plan.issues = [] := by decide +kernel
  have hrule : ∃ rule ∈ plan.rules, rule.scope = .wholeFile := by decide
  obtain ⟨selection, hselection, hfiles⟩ : ∃ selection,
      Selection.ofPatterns plan.patterns = .ok selection ∧ store.matching selection = [a, b, c] :=
    ⟨_, rfl, rfl⟩
  have hsome : store.matching selection ≠ [] := by
    rw [hfiles]
    exact List.cons_ne_nil _ _
  obtain ⟨staged, after, hstage, -, hlog, hwritten, hothers, hcommit⟩ :=
    commit_stops_at_edited_line hvalid hrule hselection hsome rfl rfl
  have hleading : plan.leading store [a, b, c] = [a] := by decide +kernel
  have hfind : [a, b, c].find? (plan.editsLines store) = some b := by decide +kernel
  rw [hfiles, hleading] at hlog hwritten hothers
  rw [hfiles, hfind] at hcommit
  refine ⟨hvalid, hrule, selection, hselection, hfiles, staged, after, hstage, hcommit.1, hlog, ?_,
    ?_, ?_⟩
  · rw [hwritten a List.mem_cons_self]
    decide +kernel
  · rw [hothers b (by decide +kernel)]
    decide +kernel
  · rw [hothers c (by decide +kernel)]
    decide +kernel

end Plan

end BulkEdit
