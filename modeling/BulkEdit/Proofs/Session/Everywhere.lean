import BulkEdit.Proofs.Session.Commit
import BulkEdit.Proofs.Session.Snapshots
import BulkEdit.Proofs.Text.Substitution

/-!
# Replacing a text everywhere

A text without newlines can be replaced everywhere by one call on each line or by one call on each file.
The calls on lines leave an edit for each line that holds the text, which a commit looks up in the whole
content. If the text is gone from every line in which it has been replaced, each edit meets its own
line, and the two ways of replacing write the same.
-/

namespace BulkEdit

variable {search replacement : Text}

theorem LineView.edits_replaceAll (view : LineView) (search replacement : Text) :
    view.edits [.replace search replacement true] =
      if view.line.text.has search then
        [⟨view.file, .line view.line.number, .every, view.line.text,
          Text.replaceAll search replacement view.line.text⟩]
      else [] := by
  have hwanted : Staging.isWanted (view.request (.replace search replacement true)) view.line.text =
      view.line.text.has search := rfl
  rw [edits, requests, List.map_singleton, List.filter_cons, hwanted]
  split <;> rfl

theorem foldl_replayEdit_lines (file : Path) (content : Text) (lines : List Line) (text : Text) :
    ((lines.map fun line => LineView.mk file content line).flatMap fun view =>
        view.edits [.replace search replacement true]).foldl FileEdits.replayEdit text =
      ((lines.map Line.text).filter (·.has search)).foldl
        (fun text line => Text.replaceFirst line (Text.replaceAll search replacement line) text)
        text := by
  induction lines generalizing text with
  | nil => rfl
  | cons line rest ih =>
    rw [List.map_cons, List.flatMap_cons, List.foldl_append, LineView.edits_replaceAll,
      List.map_cons, List.filter_cons]
    split
    · exact ih _
    · exact ih _

/-- The edits of all lines of a file, replayed on what the file reads. -/
theorem replay_lineEdits_replaceAll {store : MemoryStore} {file : Path} (hsearch : '\n' ∉ search)
    (hclean : ∀ line ∈ (store.textOf file).lines,
      ¬ (Text.replaceAll search replacement line.text).has search = true) :
    (store.lineEdits (fun _ => [.replace search replacement true]) file).foldl FileEdits.replayEdit
        (store.textOf file) =
      Text.replaceAll search replacement (store.textOf file) := by
  generalize hcontent : store.textOf file = content at hclean
  have hbelow : ∀ text ∈ content.lines.map Line.text,
      '\n' ∉ text ∧ ¬ (Text.replaceAll search replacement text).has search = true := by
    intro text ht
    obtain ⟨line, hl, rfl⟩ := List.mem_map.mp ht
    exact ⟨Text.newline_not_mem_of_mem_lines hl, hclean line hl⟩
  have habove : ∀ text ∈ ([] : List Text),
      ¬ (Text.replaceAll search replacement text).has search = true := fun _ h => nomatch h
  have hlines := Text.foldl_replaceFirst_lines habove hbelow
  have hne : content.lines.map Line.text ≠ [] := Text.map_text_lines_ne_nil content
  rw [List.map_nil, List.nil_append, ← Text.replaceAll_unlines hsearch _ hne,
    Text.unlines_lines] at hlines
  rw [MemoryStore.lineEdits, LineView.ofFile, hcontent, foldl_replayEdit_lines]
  exact hlines

namespace Session

open MemoryStore (access)

/-- Replacing a text in every line and replacing it in every file leave the same store, with every file
rewritten, if the text is gone from every line in which it is replaced. -/
theorem replaceAll_in_lines_eq_in_files {β : Type} {store opened : MemoryStore}
    {patterns : List Text} {session : Session}
    (hopen : ofPatterns access patterns store = .ok session opened)
    (hreads : store.failingReads = []) (hwrites : store.failingWrites = [])
    (hsearch : '\n' ∉ search)
    (hclean : ∀ file ∈ session.files, ∀ line ∈ (store.textOf file).lines,
      ¬ (Text.replaceAll search replacement line.text).has search = true) (memo : β) :
    ∃ (lines files : PassState MemoryStore β) (byLines byFiles : Report),
      let rewritten := store.writeAll (session.files.map fun file =>
        (file, Text.replaceAll search replacement (store.textOf file)))
      linePass access (fun _ => Script.calls [.replace search replacement true]) session.files
        (session.start opened memo) = .ok () lines ∧
      commit access ⟨session.files, lines.staging⟩ lines.store = .ok byLines rewritten ∧
      filePass access (fun _ => Script.calls [⟨search, replacement, true⟩]) session.files
        (session.start opened memo) = .ok () files ∧
      commit access ⟨session.files, files.staging⟩ files.store = .ok byFiles rewritten := by
  obtain ⟨rfl, hempty, hd⟩ := ofPatterns_ok hopen
  have hread : ∀ file ∈ session.files, (session.start opened memo).store.readFault? file = none :=
    fun file hf => MemoryStore.readFault?_of_mem (mem_stored_of_ofPatterns hopen file hf) hreads
  have hstart : (session.start opened memo).staging = .empty := hempty
  have hfresh : (session.start opened memo).staging.drafts = [] := by
    rw [hstart]
    rfl
  obtain ⟨staged, hstaged, hlines⟩ := linePass_of_readable hd hread hfresh fun _ =>
    [LineCall.replace search replacement true]
  have hfiles := filePass_of_readable hread fun _ => [FileCall.mk search replacement true]
  rw [hstart] at hstaged hfiles
  obtain ⟨byLines, hbyLines⟩ := commit_of_flatMap hd hread hwrites
    (fun _ _ _ he => MemoryStore.mem_lineEdits he) hstaged
    (fun file hf => replay_lineEdits_replaceAll hsearch (hclean file hf))
  obtain ⟨byFiles, hbyFiles⟩ := commit_of_flatMap hd hread hwrites
    (fun _ _ _ he => MemoryStore.mem_fileEdits he)
    (rfl : (Staging.mk (session.files.flatMap (opened.fileEdits fun _ =>
      [⟨search, replacement, true⟩])) []).ledger = _)
    (fun _ _ => rfl)
  exact ⟨_, _, byLines, byFiles, hlines, hbyLines, hfiles, hbyFiles⟩

/-- A file with a line twice, a line inside another, and a replacement of two lines. -/
theorem everywhere_in_nested_lines :
    let a : Path := ⟨['a']⟩
    let search : Text := ['b']
    let replacement : Text := ['c', '\n', 'd']
    let store := MemoryStore.empty.set a ['x', 'b', '\n', 'b', '\n', 'x', 'b', 'b', '\n', 'b']
    let session : Session := ⟨[a], .empty⟩
    ofPatterns access [['*']] store = .ok session store ∧
    '\n' ∉ search ∧
    (∀ file ∈ session.files, ∀ line ∈ (store.textOf file).lines,
      ¬ (Text.replaceAll search replacement line.text).has search = true) ∧
    ∃ (lines files : PassState MemoryStore Unit) (byLines byFiles : Report),
      let rewritten := store.writeAll (session.files.map fun file =>
        (file, Text.replaceAll search replacement (store.textOf file)))
      linePass access (fun _ => Script.calls [.replace search replacement true]) session.files
        (session.start store ()) = .ok () lines ∧
      commit access ⟨session.files, lines.staging⟩ lines.store = .ok byLines rewritten ∧
      filePass access (fun _ => Script.calls [⟨search, replacement, true⟩]) session.files
        (session.start store ()) = .ok () files ∧
      commit access ⟨session.files, files.staging⟩ files.store = .ok byFiles rewritten := by
  intro a search replacement store session
  have hopen : ofPatterns access [['*']] store = .ok session store := rfl
  have hsearch : '\n' ∉ search := by decide
  have hclean : ∀ file ∈ session.files, ∀ line ∈ (store.textOf file).lines,
      ¬ (Text.replaceAll search replacement line.text).has search = true := by decide +kernel
  exact ⟨hopen, hsearch, hclean, replaceAll_in_lines_eq_in_files hopen rfl rfl hsearch hclean ()⟩

end Session

end BulkEdit
