import BulkEdit.Proofs.Edit.Earliest
import BulkEdit.Proofs.Session.Commit
import BulkEdit.Proofs.Session.Snapshots

/-!
# Replacing a text once

A text without newlines can be replaced once in a file by a call on the file, or by calls on its lines up
to the first that finds it. The edit of that line holds the line as a whole and is looked up in the whole
content. It meets its own line: a line above that read like it, or had it in it, would hold the text and
would have been edited instead.
-/

namespace BulkEdit

variable {search replacement : Text}

/-- Replacing the first line that holds a text as a whole is replacing the text in the content. -/
theorem Text.replaceFirst_line (hs : '\n' ∉ search) {content : Text} {line : Line}
    {before after : List Line} (hlines : content.lines = before ++ line :: after)
    (hbefore : ∀ other ∈ before, ¬ other.text.has search = true)
    (hline : line.text.has search = true) (replacement : Text) :
    replaceFirst line.text (replaceFirst search replacement line.text) content =
      replaceFirst search replacement content := by
  have hcontent : unlines (before.map Line.text ++ line.text :: after.map Line.text) = content := by
    rw [← List.map_cons, ← List.map_append, ← hlines, unlines_lines]
  have hnewline : '\n' ∉ line.text :=
    newline_not_mem_of_mem_lines (hlines ▸ List.mem_append_right before List.mem_cons_self)
  have habove : ∀ text ∈ before.map Line.text, ¬ text.has search = true := by
    intro text ht
    obtain ⟨other, ho, rfl⟩ := List.mem_map.mp ht
    exact hbefore other ho
  -- A line above that had this one in it would have the text in it.
  have hfree : ∀ text ∈ before.map Line.text, '\n' ∉ line.text ∧ ¬ text.has line.text = true :=
    fun text ht => ⟨hnewline, fun hhas => habove text ht (has_trans hhas hline)⟩
  rw [← hcontent, replaceFirst_unlines hfree (has_self line.text), replaceFirst_self,
    replaceFirst_unlines (fun text ht => ⟨hs, habove text ht⟩) hline]

namespace Session

open MemoryStore (access)

/-- Calls on each line until one finds something, and none after that. The memo tells whether one has. -/
def untilFound (search replacement : Text) (_ : LineView) (found : Bool) :
    Script LineCall Bool Bool :=
  if found then .done true else .call (.replace search replacement false) .done

theorem visitAll_found (views : List LineView) (staging : Staging) :
    visitAll LineView.perform (untilFound search replacement) views (staging, true) =
      .ok () (staging, true) := by
  induction views with
  | nil => rfl
  | cons view rest ih => exact ih

/-- Up to the first line that holds the text every call is in vain. -/
theorem visitAll_untilFound {views : List LineView} (h : ∀ view ∈ views, 1 ≤ view.line.number)
    (staging : Staging) :
    visitAll LineView.perform (untilFound search replacement) views (staging, false) =
      .ok () (match views.find? (·.line.text.has search) with
        | none => (staging, false)
        | some view => (staging.recordLine (view.request (.replace search replacement false))
            view.line.text view.line.number, true)) := by
  induction views with
  | nil => rfl
  | cons view rest ih =>
    obtain ⟨hview, hrest⟩ := List.forall_mem_cons.mp h
    have hwanted : Staging.isWanted (view.request (.replace search replacement false))
      view.line.text = view.line.text.has search := rfl
    have hperform := LineView.perform_eq hview (.replace search replacement false) staging
    rw [LineView.after_stage_request hview, hwanted] at hperform
    rw [List.find?_cons]
    simp only [visitAll, untilFound, Bool.false_eq_true, if_false, Script.run, hperform]
    cases view.line.text.has search with
    | false => exact ih hrest
    | true => exact visitAll_found rest _

/-- The edits that calls up to the first success leave of a content. -/
def onceEdits (file : Path) (search replacement content : Text) : List Edit :=
  ((content.lines.find? (·.text.has search)).map fun line =>
    ⟨file, .line line.number, .first, line.text,
      Text.replaceFirst search replacement line.text⟩).toList

variable {store : MemoryStore} {file : Path}

theorem linePass_untilFound (hread : store.readFault? file = none) (search replacement : Text) :
    ∃ staging, linePass access (untilFound search replacement) [file] ⟨store, .empty, false⟩ =
        .ok () ⟨store, staging, (store.textOf file).lines.any (·.text.has search)⟩ ∧
      staging.ledger = onceEdits file search replacement (store.textOf file) := by
  have hreadable : ∀ other ∈ [file], store.readFault? other = none :=
    List.forall_mem_singleton.mpr hread
  have hviews : store.seen LineView.ofFile [file] = LineView.ofFile file (store.textOf file) := by
    rw [MemoryStore.seen_of_readable hreadable, List.flatMap_singleton]
  have hpass : linePass access (untilFound search replacement) [file] ⟨store, .empty, false⟩ = _ :=
    pass_eq LineView.ofFile LineView.perform (untilFound search replacement) [file] _
  rw [hviews, visitAll_untilFound (fun _ => LineView.one_le_number_of_mem),
    MemoryStore.unreadable?_of_readable hreadable, LineView.ofFile, List.find?_map] at hpass
  rw [onceEdits, ← List.isSome_find?, hpass]
  simp only [Function.comp_def]
  cases (store.textOf file).lines.find? (·.text.has search) with
  | none => exact ⟨_, rfl, rfl⟩
  | some line => exact ⟨_, rfl, rfl⟩

theorem mem_onceEdits {content : Text} {edit : Edit}
    (h : edit ∈ onceEdits file search replacement content) :
    edit.file = file ∧ edit.scope.granularity = .line := by
  obtain ⟨line, -, rfl⟩ := Option.map_eq_some_iff.mp (Option.mem_toList.mp h)
  exact ⟨rfl, rfl⟩

theorem length_onceEdits (hs : '\n' ∉ search) (file : Path) (replacement content : Text) :
    (onceEdits file search replacement content).length = if content.has search then 1 else 0 := by
  rw [onceEdits, Text.has_eq_any_lines hs, ← List.isSome_find?]
  cases content.lines.find? (·.text.has search) <;> rfl

/-- The edit that is left, replayed on the content that it was made for, replaces the text once. -/
theorem replay_onceEdits (hs : '\n' ∉ search) (file : Path) (replacement content : Text) :
    (onceEdits file search replacement content).foldl FileEdits.replayEdit content =
      Text.replaceFirst search replacement content := by
  cases hfind : content.lines.find? (·.text.has search) with
  | none =>
    have hnone : ¬ content.has search = true := by
      rw [Text.has_eq_any_lines hs, ← List.isSome_find?, hfind]
      exact Bool.false_ne_true
    rw [onceEdits, hfind, Text.replaceFirst_of_not_has hnone]
    rfl
  | some line =>
    obtain ⟨hline, before, after, hlines, hbefore⟩ := List.find?_eq_some_iff_append.mp hfind
    rw [onceEdits, hfind]
    refine Text.replaceFirst_line hs hlines (fun other ho => ?_) hline replacement
    simpa using hbefore other ho

/-- A commit of edits of one file, all of one granularity. -/
theorem commit_alone (hread : store.readFault? file = none) (hwrite : store.refusesWrite file = false)
    {staging : Staging} {g : Granularity}
    (h : ∀ edit ∈ staging.ledger, edit.file = file ∧ edit.scope.granularity = g) {output : Text}
    (houtput : staging.ledger.foldl FileEdits.replayEdit (store.textOf file) = output) :
    ∃ report, commit access ⟨[file], staging⟩ store = .ok report (store.written file output) := by
  have hledger : staging.ledger = [file].flatMap fun _ => staging.ledger :=
    (List.flatMap_singleton (fun _ => staging.ledger) file).symm
  have hreplayed : ∀ other ∈ [file],
      staging.ledger.foldl FileEdits.replayEdit (store.textOf other) = output :=
    List.forall_mem_singleton.mpr houtput
  exact commit_of_edits (List.pairwise_singleton _ file) (List.forall_mem_singleton.mpr hread)
    (List.forall_mem_singleton.mpr hwrite) (List.forall_mem_singleton.mpr h) hledger hreplayed

/-- Calls on the lines of a file up to the first success and one call on the file write the same text. An
edit of a line is staged if the text stands in the file, and then only one. -/
theorem replace_once_in_lines_eq_in_file (hs : '\n' ∉ search) (replacement : Text)
    (hread : store.readFault? file = none) (hwrite : store.refusesWrite file = false) :
    let session : Session := ⟨[file], .empty⟩
    let content := store.textOf file
    let rewritten := store.written file (Text.replaceFirst search replacement content)
    ∃ (lines : PassState MemoryStore Bool) (whole : PassState MemoryStore Unit)
        (byLines byFile : Report),
      linePass access (untilFound search replacement) session.files (session.start store false) =
        .ok () lines ∧
      commit access ⟨session.files, lines.staging⟩ lines.store = .ok byLines rewritten ∧
      filePass access (fun _ => Script.calls [⟨search, replacement, false⟩]) session.files
        (session.start store ()) = .ok () whole ∧
      commit access ⟨session.files, whole.staging⟩ whole.store = .ok byFile rewritten ∧
      lines.memo = content.has search ∧
      lines.staging.ledger.length = if content.has search then 1 else 0 := by
  intro session content rewritten
  obtain ⟨staging, hlines, hledger⟩ := linePass_untilFound hread search replacement
  have hreadable : ∀ other ∈ session.files, (session.start store ()).store.readFault? other = none :=
    List.forall_mem_singleton.mpr hread
  let calls : FileView → List FileCall := fun _ => [⟨search, replacement, false⟩]
  have hwhole := filePass_of_readable hreadable calls
  have hwholeEdits : ∀ edit ∈ (Staging.mk (store.fileEdits calls file) []).ledger,
      edit.file = file ∧ edit.scope.granularity = .wholeFile := fun _ => MemoryStore.mem_fileEdits
  have hlinesEdits : ∀ edit ∈ staging.ledger, edit.file = file ∧ edit.scope.granularity = .line :=
    hledger ▸ fun _ => mem_onceEdits
  have hreplayed := replay_onceEdits hs file replacement content
  obtain ⟨byLines, hbyLines⟩ := commit_alone hread hwrite hlinesEdits (hledger ▸ hreplayed)
  obtain ⟨byFile, hbyFile⟩ := commit_alone hread hwrite hwholeEdits
    (rfl : _ = Text.replaceFirst search replacement content)
  refine ⟨_, _, byLines, byFile, hlines, hbyLines, hwhole, hbyFile, ?_, ?_⟩
  · exact (Text.has_eq_any_lines hs content).symm
  · rw [hledger, length_onceEdits hs]

/-- The second line is a part of the first, and the fourth is the first to hold the text. A line is put
in front of it that holds the text as well. -/
theorem replace_once_in_repeated_lines :
    let a : Path := ⟨['a']⟩
    let search : Text := ['b']
    let replacement : Text := ['b', '\n', 'c']
    let store := (MemoryStore.empty.set a
      ['x', 'y', '\n', 'x', '\n', '\n', 'x', 'b', 'b', '\n', 'x', 'b', 'b']).set ⟨['d']⟩ ['b']
    let session : Session := ⟨[a], .empty⟩
    let rewritten := store.written a
      ['x', 'y', '\n', 'x', '\n', '\n', 'x', 'b', '\n', 'c', 'b', '\n', 'x', 'b', 'b']
    ofPatterns access [['a']] store = .ok session store ∧
    '\n' ∉ search ∧ store.readFault? a = none ∧ store.refusesWrite a = false ∧
    ∃ (lines : PassState MemoryStore Bool) (whole : PassState MemoryStore Unit)
        (byLines byFile : Report),
      linePass access (untilFound search replacement) session.files (session.start store false) =
        .ok () lines ∧
      commit access ⟨session.files, lines.staging⟩ lines.store = .ok byLines rewritten ∧
      filePass access (fun _ => Script.calls [⟨search, replacement, false⟩]) session.files
        (session.start store ()) = .ok () whole ∧
      commit access ⟨session.files, whole.staging⟩ whole.store = .ok byFile rewritten ∧
      lines.memo = true ∧ lines.staging.ledger.length = 1 := by
  intro a search replacement store session rewritten
  have hopen : ofPatterns access [['a']] store = .ok session store := rfl
  have hs : '\n' ∉ search := by decide
  have hread : store.readFault? a = none := by decide
  have hwrite : store.refusesWrite a = false := by decide
  exact ⟨hopen, hs, hread, hwrite, replace_once_in_lines_eq_in_file hs replacement hread hwrite⟩

end Session

end BulkEdit
