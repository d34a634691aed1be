import BulkEdit.Proofs.Edit.Requests
import BulkEdit.Proofs.Edit.Resolution
import BulkEdit.Proofs.Text.Lines
import BulkEdit.Proofs.Text.Occurrences

/-!
# Where line edits land

A replay looks for the old text of a line edit in the whole content and knows nothing of line numbers.
As long as no line above reads like the old text when an edit is staged, the replay of the ledger gives
the content line by line as the drafts have it. An edit of the first line has no line above it.
-/

namespace BulkEdit

/-- That a request is for a line of the content of a file and gives the line as the content has it. -/
def Request.IsOnLine (request : Request) (file : Path) (content : Text) : Prop :=
  request.file.Same file ∧
    ∃ line ∈ content.lines, request.target = .line (some line.text) (some line.number)

instance (request : Request) (file : Path) (content : Text) :
    Decidable (request.IsOnLine file content) := inferInstanceAs (Decidable (_ ∧ _))

namespace Staging

/-- The lines of a file with the edits staged so far. -/
def currentLines (staging : Staging) (file : Path) (content : Text) : List Text :=
  content.lines.map fun line => staging.textBefore file line.number line.text

/-- That the old text of an edit is not found above the line that the edit was staged for. The first
line has none above it, and there nothing is asked of the old text. -/
def StandsOut (staging : Staging) (content : Text) (edit : Edit) : Prop :=
  ∀ number ∈ edit.scope.lineNumber?, 1 < number →
    '\n' ∉ edit.old ∧ ∀ line ∈ content.lines, line.number < number →
      ¬ (staging.textBefore edit.file line.number line.text).has edit.old = true

/-- That each edit which the requests record, staged in order, stands out when it is recorded. -/
def Unambiguous (content : Text) : Staging → List Request → Prop
  | _, [] => True
  | staging, request :: rest =>
    (∀ edit ∈ ((stage request).after staging).ledger.drop staging.ledger.length,
      staging.StandsOut content edit) ∧
    Unambiguous content ((stage request).after staging) rest

instance (staging : Staging) (content : Text) (edit : Edit) :
    Decidable (staging.StandsOut content edit) :=
  inferInstanceAs (Decidable (∀ number ∈ edit.scope.lineNumber?, _))

instance decidableUnambiguous (content : Text) :
    (staging : Staging) → (requests : List Request) → Decidable (Unambiguous content staging requests)
  | _, [] => .isTrue trivial
  | staging, request :: rest =>
    have := decidableUnambiguous content ((stage request).after staging) rest
    inferInstanceAs (Decidable (_ ∧ _))

/-- A recorded line edit changes its own line and no other. -/
theorem currentLines_recordLine (staging : Staging) {request : Request} {file : Path}
    (h : request.file.Same file) {content : Text} {line : Line} {before after : List Line}
    (hl : content.lines = before ++ line :: after) (hb : ∀ other ∈ before, other.number < line.number)
    (ha : ∀ other ∈ after, line.number < other.number) :
    let current := fun other : Line => staging.textBefore file other.number other.text
    (staging.recordLine request line.text line.number).currentLines file content =
      before.map current ++
        request.manner.replace request.search request.replacement (current line) ::
          after.map current := by
  intro current
  rw [currentLines, hl, List.map_append, List.map_cons, textBefore_recordLine_self staging h]
  congr 1
  · refine List.map_congr_left fun other ho => ?_
    exact textBefore_recordLine_of_ne staging request file _ (Nat.ne_of_gt (hb other ho)) _
  · congr 1
    refine List.map_congr_left fun other ho => ?_
    exact textBefore_recordLine_of_ne staging request file _ (Nat.ne_of_lt (ha other ho)) _

/-- What the ledger and the drafts of one file have in common while all edits stand out. -/
structure Landed (file : Path) (content : Text) (staging : Staging) : Prop where
  lines : ∀ edit ∈ staging.ledger, edit.file.Same file ∧ edit.scope.granularity = .line
  replayed : staging.ledger.replayed file content = Text.unlines (staging.currentLines file content)

theorem landed_empty (file : Path) (content : Text) : Landed file content .empty where
  lines := by simp [empty]
  replayed := (Text.unlines_lines content).symm

end Staging

theorem Ledger.replayed_append {ledger : Ledger} {file : Path} {edit : Edit}
    (h : edit.file.Same file) (content : Text) :
    Ledger.replayed (ledger ++ [edit]) file content =
      FileEdits.replayEdit (ledger.replayed file content) edit := by
  simp [Ledger.replayed, Ledger.ofFile, h]

namespace Staging

theorem Landed.recordLine {file : Path} {content : Text} {staging : Staging}
    (hs : Landed file content staging) {request : Request} {line : Line}
    (hf : request.file.Same file) (hm : line ∈ content.lines)
    (hclear : staging.StandsOut content
      (.ofLine request line.number (staging.textBefore request.file line.number line.text))) :
    Landed file content (staging.recordLine request line.text line.number) := by
  obtain ⟨before, after, hl, hb, ha⟩ := Text.lines_split hm
  constructor
  · intro edit he
    rcases List.mem_append.mp he with he | he
    · exact hs.lines edit he
    · obtain rfl := List.mem_singleton.mp he
      exact ⟨hf, rfl⟩
  · have hold := textBefore_congr staging hf line.number line.text
    have habove : ∀ other ∈ before.map fun l => staging.textBefore file l.number l.text,
        '\n' ∉ staging.textBefore file line.number line.text ∧
          ¬ other.has (staging.textBefore file line.number line.text) = true := by
      intro text ht
      obtain ⟨other, ho, rfl⟩ := List.mem_map.mp ht
      obtain ⟨h1, hlt⟩ := hb other ho
      obtain ⟨hnl, hnot⟩ := hclear line.number rfl (Nat.lt_of_le_of_lt h1 hlt)
      have hother := hnot other (hl ▸ List.mem_append_left _ ho) hlt
      rw [← hold]
      exact ⟨hnl, textBefore_congr staging hf other.number other.text ▸ hother⟩
    rw [currentLines_recordLine staging hf hl (fun other ho => (hb other ho).2) ha,
      Staging.recordLine, Ledger.replayed_append hf, hs.replayed, currentLines, hl, hold,
      List.map_append, List.map_cons]
    change Text.replaceFirst (staging.textBefore file line.number line.text) _ _ = _
    rw [Text.replaceFirst_unlines habove (Text.has_self _), Text.replaceFirst_self]
    rfl

theorem Landed.stageAll {file : Path} {content : Text} {requests : List Request}
    (hlines : ∀ request ∈ requests, request.IsOnLine file content) {staging : Staging}
    (hs : Landed file content staging) (hclear : Unambiguous content staging requests) :
    Landed file content (Staging.stageAll requests staging) := by
  induction requests generalizing staging with
  | nil => exact hs
  | cons request rest ih =>
    obtain ⟨⟨hf, line, hm, ht⟩, hrest⟩ := List.forall_mem_cons.mp hlines
    obtain ⟨hfirst, hclear⟩ := hclear
    refine ih hrest ?_ hclear
    rw [after_stage] at hfirst ⊢
    cases hv : request.verdict with
    | refused fault => exact hs
    | idle => exact hs
    | wholeFile =>
      rw [Request.target_of_verdict_wholeFile hv] at ht
      cases ht
    | line text number =>
      obtain ⟨rfl, rfl⟩ : text = line.text ∧ number = line.number := by
        have hline := (Request.target_of_verdict_line hv).1
        rw [ht] at hline
        cases hline
        exact ⟨rfl, rfl⟩
      rw [hv] at hfirst
      exact hs.recordLine hf hm (hfirst _ (by simp [Staging.recordLine]))

/-- Requests for lines of a content, whatever their manners and their order, leave a ledger that turns
the content into its current lines, if every edit that is recorded stands out. -/
theorem resolve_eq_currentLines {file : Path} {content : Text} {requests : List Request}
    (hlines : ∀ request ∈ requests, request.IsOnLine file content)
    (hclear : Unambiguous content .empty requests) :
    let staging := stageAll requests .empty
    ∃ outcome, staging.ledger.resolve file content =
      .ok (outcome, Text.unlines (staging.currentLines file content)) := by
  intro staging
  have hs := (landed_empty file content).stageAll hlines hclear
  have hg : ∀ edit ∈ staging.ledger.ofFile file, edit.scope.granularity = .line :=
    fun edit he => (hs.lines edit (List.mem_filter.mp he).1).2
  refine ⟨staging.ledger.outcome file content, ?_⟩
  rw [Ledger.resolve_of_forall hg, hs.replayed]

/-- The third line reads like the first, and can be edited once the first reads otherwise. -/
theorem currentLines_of_repeated_line :
    let content : Text := ['a', 'b', '\n', 'c', '\n', 'a', 'b']
    let file : Path := ⟨['f']⟩
    let requests : List Request := [
      ⟨file, .line (some ['a', 'b']) (some 1), ['b'], ['\n', 'd'], .every⟩,
      ⟨file, .line (some ['c']) (some 2), ['a'], ['e'], .first⟩,
      ⟨file, .line (some ['a', 'b']) (some 3), ['a'], [], .first⟩,
      ⟨file, .line (some ['a', 'b']) (some 3), [], ['c'], .wholeLine⟩]
    (∀ request ∈ requests, request.IsOnLine file content) ∧ Unambiguous content .empty requests ∧
      ∃ outcome, (stageAll requests .empty).ledger.resolve file content =
        .ok (outcome, ['a', '\n', 'd', '\n', 'c', '\n', 'c']) := by
  intro content file requests
  have hlines : ∀ request ∈ requests, request.IsOnLine file content := by decide
  have hclear : Unambiguous content .empty requests := by decide
  obtain ⟨outcome, h⟩ := resolve_eq_currentLines hlines hclear
  refine ⟨hlines, hclear, outcome, h.trans ?_⟩
  congr 2

end Staging

end BulkEdit
