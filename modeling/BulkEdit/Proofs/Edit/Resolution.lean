import BulkEdit.Edit.Replay
import BulkEdit.Proofs.Path.Distinct

/-!
# What a ledger makes of a file

A file whose edits are of both granularities is refused. The edits of any other file are replayed in
order, each by its own scope, so that the split by granularity does not show in the result.
-/

namespace BulkEdit

namespace FileEdits

/-- The content after an edit, by the scope of the edit. -/
def replayEdit (content : Text) (edit : Edit) : Text :=
  match edit.scope with
  | .wholeFile => replayWhole content edit
  | .line _ => replayLine content edit

variable {edits : List Edit}

theorem filter_granularity {g : Granularity}
    (h : ∀ edit ∈ edits, edit.scope.granularity = g) (k : Granularity) :
    (edits.filter fun edit => edit.scope.granularity == k) = if g = k then edits else [] := by
  split
  next hk =>
    rw [List.filter_eq_self]
    intro edit he
    rw [h edit he, hk, beq_self_eq_true]
  next hk =>
    rw [List.filter_eq_nil_iff]
    intro edit he
    rwa [h edit he, beq_iff_eq]

theorem filter_granularity_ne_nil {edit : Edit} (h : edit ∈ edits) :
    (edits.filter fun other => other.scope.granularity == edit.scope.granularity) ≠ [] :=
  List.ne_nil_of_mem (List.mem_filter.mpr ⟨h, beq_self_eq_true _⟩)

theorem foldl_replayEdit {replay : Text → Edit → Text}
    (h : ∀ edit ∈ edits, ∀ content, replay content edit = replayEdit content edit) (content : Text) :
    edits.foldl replay content = edits.foldl replayEdit content := by
  induction edits generalizing content with
  | nil => rfl
  | cons edit rest ih =>
    rw [List.foldl_cons, List.foldl_cons, h edit List.mem_cons_self]
    exact ih (fun other ho => h other (List.mem_cons_of_mem _ ho)) _

theorem granularity_eq_wholeFile {scope : Scope} (h : scope.granularity = .wholeFile) :
    scope = .wholeFile := by
  cases scope with
  | wholeFile => rfl
  | line number => cases h

theorem replayWhole_eq {edit : Edit} (h : edit.scope.granularity = .wholeFile) (content : Text) :
    replayWhole content edit = replayEdit content edit := by
  rw [replayEdit, granularity_eq_wholeFile h]

theorem replayLine_eq {edit : Edit} (h : edit.scope.granularity = .line) (content : Text) :
    replayLine content edit = replayEdit content edit := by
  rw [replayEdit]
  cases hs : edit.scope with
  | wholeFile => rw [hs] at h; cases h
  | line number => rfl

/-- Edits of one granularity are taken as they are. -/
theorem ofEdits_of_forall {g : Granularity} (h : ∀ edit ∈ edits, edit.scope.granularity = g)
    (file : Path) :
    ∃ fileEdits, ofEdits file edits = .ok fileEdits ∧ fileEdits.edits = edits ∧
      fileEdits.granularity? = edits.head?.map (·.scope.granularity) ∧
      ∀ content, fileEdits.replay content = edits.foldl replayEdit content := by
  cases edits with
  | nil => exact ⟨.untouched, rfl, rfl, rfl, fun _ => rfl⟩
  | cons edit rest =>
    have hg : some g = (edit :: rest).head?.map (·.scope.granularity) :=
      congrArg some (h edit List.mem_cons_self).symm
    cases g with
    | wholeFile =>
      refine ⟨.wholeFile (edit :: rest), ?_, rfl, hg, fun content => ?_⟩
      · simp [ofEdits, filter_granularity h]
      · exact foldl_replayEdit (fun other ho => replayWhole_eq (h other ho)) content
    | line =>
      refine ⟨.lines (edit :: rest), ?_, rfl, hg, fun content => ?_⟩
      · simp [ofEdits, filter_granularity h]
      · exact foldl_replayEdit (fun other ho => replayLine_eq (h other ho)) content

theorem ofEdits_of_both {whole line : Edit} (hw : whole ∈ edits) (hl : line ∈ edits)
    (hwg : whole.scope.granularity = .wholeFile) (hlg : line.scope.granularity = .line)
    (file : Path) : ofEdits file edits = .error (.mixedGranularity file) := by
  have hwne := filter_granularity_ne_nil hw
  have hlne := filter_granularity_ne_nil hl
  rw [hwg] at hwne
  rw [hlg] at hlne
  rw [ofEdits, List.isEmpty_eq_false_iff.mpr hwne, List.isEmpty_eq_false_iff.mpr hlne]

end FileEdits

namespace Ledger

/-- Whether a file has edits of both granularities. -/
def isMixed (ledger : Ledger) (file : Path) : Bool :=
  (ledger.ofFile file).any (·.scope.granularity == .wholeFile) &&
    (ledger.ofFile file).any (·.scope.granularity == .line)

/-- The content after the edits of a file. -/
def replayed (ledger : Ledger) (file : Path) (content : Text) : Text :=
  (ledger.ofFile file).foldl FileEdits.replayEdit content

/-- What is reported of a file that is not refused. -/
def outcome (ledger : Ledger) (file : Path) (content : Text) : Outcome where
  file
  granularity := (ledger.ofFile file).head?.map (·.scope.granularity)
  edits := (ledger.ofFile file).length
  changed := ledger.replayed file content != content
  content := none

theorem exists_granularity {ledger : Ledger} {file : Path} (h : ¬ ledger.isMixed file = true) :
    ∃ g, ∀ edit ∈ ledger.ofFile file, edit.scope.granularity = g := by
  rw [isMixed, Bool.not_eq_true, Bool.and_eq_false_iff, List.any_eq_false, List.any_eq_false] at h
  rcases h with h | h
  · refine ⟨.line, fun edit he => ?_⟩
    cases hg : edit.scope.granularity with
    | line => rfl
    | wholeFile => exact absurd (beq_iff_eq.mpr hg) (h edit he)
  · refine ⟨.wholeFile, fun edit he => ?_⟩
    cases hg : edit.scope.granularity with
    | wholeFile => rfl
    | line => exact absurd (beq_iff_eq.mpr hg) (h edit he)

theorem resolve_of_forall {ledger : Ledger} {file : Path} {g : Granularity}
    (h : ∀ edit ∈ ledger.ofFile file, edit.scope.granularity = g) (content : Text) :
    ledger.resolve file content =
      .ok (ledger.outcome file content, ledger.replayed file content) := by
  obtain ⟨fileEdits, hok, hedits, hg, hreplay⟩ := FileEdits.ofEdits_of_forall h file
  rw [resolve, hok]
  simp only [hedits, hg, hreplay]
  rfl

theorem not_isMixed {ledger : Ledger} {file : Path} {g : Granularity}
    (h : ∀ edit ∈ ledger.ofFile file, edit.scope.granularity = g) : ¬ ledger.isMixed file = true := by
  rw [isMixed, Bool.and_eq_true, List.any_eq_true, List.any_eq_true]
  rintro ⟨⟨whole, hw, hwg⟩, ⟨line, hl, hlg⟩⟩
  have hwhole : g = .wholeFile := (h whole hw).symm.trans (beq_iff_eq.mp hwg)
  have hline : g = .line := (h line hl).symm.trans (beq_iff_eq.mp hlg)
  cases hwhole.symm.trans hline

theorem resolve_of_isMixed {ledger : Ledger} {file : Path} (h : ledger.isMixed file = true)
    (content : Text) : ledger.resolve file content = .error (.mixedGranularity file) := by
  rw [isMixed, Bool.and_eq_true, List.any_eq_true, List.any_eq_true] at h
  obtain ⟨⟨whole, hw, hwg⟩, ⟨line, hl, hlg⟩⟩ := h
  rw [resolve, FileEdits.ofEdits_of_both hw hl (beq_iff_eq.mp hwg) (beq_iff_eq.mp hlg)]

theorem resolve_eq (ledger : Ledger) (file : Path) (content : Text) :
    ledger.resolve file content =
      if ledger.isMixed file then .error (.mixedGranularity file)
      else .ok (ledger.outcome file content, ledger.replayed file content) := by
  split
  next h => exact resolve_of_isMixed h content
  next h =>
    obtain ⟨g, hg⟩ := exists_granularity h
    exact resolve_of_forall hg content

theorem ofFile_append (ledger other : Ledger) (file : Path) :
    ofFile (ledger ++ other) file = ledger.ofFile file ++ other.ofFile file :=
  List.filter_append _ _

/-- Where every file of a list gives edits of its own, those of one file are the ones it gives. -/
theorem ofFile_flatMap {files : List Path} (hd : Path.Distinct files) {edits : Path → List Edit}
    (h : ∀ file ∈ files, ∀ edit ∈ edits file, edit.file = file) {file : Path} (hf : file ∈ files) :
    ofFile (files.flatMap edits) file = edits file := by
  have hown : ∀ other ∈ files, other.Same file → ofFile (edits other) file = edits other := by
    intro other ho hs
    refine List.filter_eq_self.mpr fun edit he => decide_eq_true ?_
    rw [h other ho edit he]
    exact hs
  have hothers : ∀ other ∈ files, ¬ other.Same file → ofFile (edits other) file = [] := by
    intro other ho hs
    refine List.filter_eq_nil_iff.mpr fun edit he hsame => hs ?_
    rw [← h other ho edit he]
    exact of_decide_eq_true hsame
  clear h
  induction files with
  | nil => cases hf
  | cons first rest ih =>
    obtain ⟨hfirst, hrest⟩ := List.pairwise_cons.mp hd
    obtain ⟨hownFirst, hownRest⟩ := List.forall_mem_cons.mp hown
    obtain ⟨hothersFirst, hothersRest⟩ := List.forall_mem_cons.mp hothers
    rw [List.flatMap_cons, ofFile_append]
    rcases List.mem_cons.mp hf with rfl | hf
    · have hnone : ofFile (rest.flatMap edits) file = [] := by
        rw [ofFile, List.filter_flatMap, List.flatMap_eq_nil_iff]
        exact fun other ho => hothersRest other ho fun hs => hfirst other ho hs.symm
      rw [hownFirst (Path.same_refl file), hnone, List.append_nil]
    · rw [hothersFirst (hfirst file hf), ih hrest hf hownRest hothersRest, List.nil_append]

end Ledger

end BulkEdit
