import BulkEdit.Proofs.Edit.Resolution
import BulkEdit.Proofs.Text.Lines
import BulkEdit.Proofs.Text.Substitution

/-!
# Replacing within lines

What is put in the place of a text without newlines stays within one line. Replacing everywhere is
replacing in each line, and replacing once is replacing in the first line that holds the text. An edit of
a line does the latter too, with the old line for the text, and its line number plays no part.
-/

namespace BulkEdit

namespace Text

/-- The content with the first `search` replaced in the first line that holds one. -/
def replaceInEarliest (search replacement content : Text) : Text :=
  match content.lines.findIdx? (·.text.has search) with
  | none => content
  | some place =>
    unlines ((content.lines.map Line.text).modify place (replaceFirst search replacement))

variable {search : Text}

/-- A text without newlines stands in a content if it stands in one of the lines. -/
theorem has_eq_any_lines (hs : '\n' ∉ search) (content : Text) :
    content.has search = content.lines.any (·.text.has search) := by
  have hhas := has_unlines hs (map_text_lines_ne_nil content)
  rwa [unlines_lines, List.any_map] at hhas

theorem replaceAll_eq_lines (hs : '\n' ∉ search) (replacement content : Text) :
    replaceAll search replacement content =
      unlines (content.lines.map fun line => replaceAll search replacement line.text) := by
  have hall := replaceAll_unlines hs replacement (map_text_lines_ne_nil content)
  rwa [unlines_lines, List.map_map] at hall

theorem replaceFirst_eq_replaceInEarliest (hs : '\n' ∉ search) (replacement content : Text) :
    replaceFirst search replacement content = replaceInEarliest search replacement content := by
  rw [replaceInEarliest]
  cases hplace : content.lines.findIdx? (·.text.has search) with
  | none =>
    have hnone : content.lines.any (·.text.has search) = false := by
      rw [List.any_eq_false]
      intro line hl
      exact Bool.eq_false_iff.mp (List.findIdx?_eq_none_iff.mp hplace line hl)
    rw [← has_eq_any_lines hs] at hnone
    exact replaceFirst_of_not_has (Bool.eq_false_iff.mp hnone) replacement
  | some place =>
    obtain ⟨hlt, hline, hbefore⟩ := List.findIdx?_eq_some_iff_getElem.mp hplace
    have htexts : place < (content.lines.map Line.text).length := by rwa [List.length_map]
    have habove : ∀ text ∈ (content.lines.map Line.text).take place,
        '\n' ∉ search ∧ ¬ text.has search = true := by
      intro text ht
      obtain ⟨i, hi, rfl⟩ := List.mem_take_iff_getElem.mp ht
      rw [List.getElem_map]
      exact ⟨hs, hbefore i (by omega)⟩
    have hfound : (content.lines.map Line.text)[place].has search = true := by
      rwa [List.getElem_map]
    have hall := replaceFirst_unlines habove hfound replacement
      ((content.lines.map Line.text).drop (place + 1))
    rw [← List.drop_eq_getElem_cons htexts, List.take_append_drop, unlines_lines] at hall
    rw [hall]
    exact congrArg unlines (List.modify_eq_take_cons_drop htexts).symm

end Text

/-- Replacing everywhere goes line by line, and replacing once, as replaying an edit of whatever line,
rewrites the first line that holds what is searched for and no other. -/
theorem replace_within_lines {search : Text} (hs : '\n' ∉ search) (replacement content : Text) :
    Manner.every.replace search replacement content =
      Text.unlines (content.lines.map fun line =>
        Manner.every.replace search replacement line.text) ∧
    Manner.first.replace search replacement content =
      Text.replaceInEarliest search replacement content ∧
    ∀ (ledger : Ledger) (file f : Path) (number : Nat) (manner : Manner),
      ledger.ofFile file = [⟨f, .line number, manner, search, replacement⟩] →
      ledger.resolve file content =
        .ok (ledger.outcome file content, Text.replaceInEarliest search replacement content) := by
  have hfirst := Text.replaceFirst_eq_replaceInEarliest hs replacement content
  refine ⟨Text.replaceAll_eq_lines hs replacement content, hfirst, ?_⟩
  intro ledger file f number manner hof
  have hline : ∀ edit ∈ ledger.ofFile file, edit.scope.granularity = .line := by
    intro edit he
    rw [hof, List.mem_singleton] at he
    rw [he]
    rfl
  have hreplayed : ledger.replayed file content =
      Text.replaceInEarliest search replacement content := by
    rw [Ledger.replayed, hof]
    exact hfirst
  rw [Ledger.resolve_of_forall hline, hreplayed]

/-- An edit of the fourth line, which reads like a part of the second one, beside an edit of another
file. -/
theorem replace_within_lines_of_nested_line :
    let a : Path := ⟨['a']⟩
    let b : Path := ⟨['b']⟩
    let search : Text := ['x']
    let replacement : Text := ['y', '\n', 'x']
    let content : Text := ['w', '\n', 'z', 'x', 'x', '\n', '\n', 'x', '\n']
    let ledger : Ledger := [⟨b, .wholeFile, .every, ['w'], []⟩,
      ⟨a, .line 4, .first, search, replacement⟩]
    '\n' ∉ search ∧
    Manner.every.replace search replacement content =
      ['w', '\n', 'z', 'y', '\n', 'x', 'y', '\n', 'x', '\n', '\n', 'y', '\n', 'x', '\n'] ∧
    ledger.resolve a content = .ok (ledger.outcome a content,
      ['w', '\n', 'z', 'y', '\n', 'x', 'x', '\n', '\n', 'x', '\n']) := by
  intro a b search replacement content ledger
  have hs : '\n' ∉ search := by decide
  obtain ⟨hevery, -, hresolve⟩ := replace_within_lines hs replacement content
  have hof : ledger.ofFile a = [⟨a, .line 4, .first, search, replacement⟩] := by decide
  exact ⟨hs, hevery.trans (by decide), hresolve ledger a a 4 .first hof⟩

end BulkEdit
