import BulkEdit.Plan.Staging
import BulkEdit.Proofs.Disk.Files
import BulkEdit.Proofs.Disk.Finding
import BulkEdit.Proofs.Session.Foretelling

/-!
# Previews on disk

A preview leaves the disk as it is and tells how the commit fails, if it does. What it tells of a file
comes true if no other path of the session leads to that file; otherwise each of these paths has its turn.
-/

namespace BulkEdit.Disk.Guard

variable {guard : Guard} {tree : Tree}

/-- What is read of a file after a commit to `tree` that a preview reported `outcome` for. -/
structure ReadsBack (guard : Guard) (session : Session) (tree done : Tree) (outcome : Outcome) :
    Prop where
  in_turn : ∃ content, (guard.read outcome.file).answer? tree = some content ∧
    (guard.read outcome.file).answer? done = some (session.staging.ledger.replayedInTurn
      (session.files.filter fun file => guard.SameFile tree file outcome.file) content)
  alone : (∀ file ∈ session.files, guard.SameFile tree file outcome.file → file = outcome.file) →
    (guard.read outcome.file).answer? done = outcome.content

theorem answer?_read {path : Path} {content : Text} (h : guard.contents tree path = .ok content) :
    (guard.read path).answer? tree = some content := by
  rw [Action.answer?, read_eq, h]
  rfl

theorem after_preview (guard : Guard) (session : Session) (tree : Tree) :
    (session.preview guard.access).after tree = tree :=
  Session.keeps_preview (P := (· = tree)) (fun _ _ => guard.keeps_read _) tree rfl

/-- The preview of a session, and what the commit comes to that is made in its place. -/
theorem commit_of_preview (guard : Guard) (tree : Tree) {session : Session}
    (hd : Path.Distinct session.files) :
    match session.preview guard.access tree with
    | .error failure shown => shown = tree ∧
        ∃ done, session.commit guard.access tree = .error failure done
    | .ok report shown => shown = tree ∧ report.files.map Outcome.file = session.files ∧
        ∃ written done, session.commit guard.access tree = .ok written done ∧
          ∀ outcome ∈ report.files, guard.ReadsBack session tree done outcome := by
  obtain ⟨between, done, -, -, hrun⟩ :=
    Session.preview_then_commit (guard.faithful_access tree) session rfl
  have hafter := guard.after_preview session tree
  cases hf : Session.firstFault? session.staging.ledger session.files (guard.contents tree) with
  | some failure =>
    rw [hf] at hrun
    obtain ⟨hpreview, hcommit⟩ := hrun
    rw [Action.after_of_error hpreview] at hafter
    subst hafter
    rw [hpreview]
    exact ⟨rfl, done, hcommit⟩
  | none =>
    rw [hf] at hrun
    obtain ⟨hpreview, ⟨outcomes, hcommit, -⟩, hcontents⟩ := hrun
    rw [Action.after_of_ok hpreview] at hafter
    subst hafter
    rw [hpreview]
    refine ⟨rfl, ?_, ⟨outcomes⟩, done, hcommit, ?_⟩
    · rw [List.map_map]
      exact List.map_id _
    · intro outcome ho
      obtain ⟨file, hfile, rfl⟩ := List.mem_map.mp ho
      obtain ⟨content, hcontent⟩ :=
        Ledger.exists_content_of_fault? (List.findSome?_eq_none_iff.mp hf file hfile)
      have hdone := answer?_read (hcontents file content hcontent)
      refine ⟨⟨content, answer?_read hcontent, hdone⟩, fun halone => ?_⟩
      have hself := (guard.faithful_access between).same_self rfl hcontent
      have hone : (session.files.filter fun other => guard.SameFile between other file) = [file] :=
        Path.filter_eq_singleton hd.nodup hfile (decide_eq_true hself)
          fun other ho hs => halone other ho (of_decide_eq_true hs)
      change (guard.read file).answer? done = _
      rw [hdone, hone, hcontent]
      rfl

/-- The session that a plan is staged in has no file twice, and staging leaves the disk as it is. -/
theorem stage_ok {plan : Plan} {staged : Plan.Staged} {later : Tree}
    (h : plan.stage guard.access tree = .ok staged later) :
    later = tree ∧ Path.Distinct staged.session.files := by
  have hkeeps := plan.keeps_stage (P := (· = tree)) (guard.keeps_find _) guard.keeps_read tree rfl
  rw [Action.after_of_ok h] at hkeeps
  refine ⟨hkeeps, ?_⟩
  obtain ⟨session, opened, state, hopen, -, rfl, -⟩ := plan.exists_passes_of_stage h
  exact (find_ordered (find_of_ofPatterns hopen).1).distinct

end BulkEdit.Disk.Guard
