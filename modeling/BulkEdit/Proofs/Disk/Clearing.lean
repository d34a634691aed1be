import BulkEdit.Proofs.Access.Clearing
import BulkEdit.Proofs.Disk.Outline

/-!
# Files on disk without a text

Writing back what is read of a file on disk leaves the disk as it was.
-/

namespace BulkEdit.Disk.Guard

variable {guard : Guard} {tree later : Tree} {path : Path} {search content : Text}

theorem read_eq_ok_iff : guard.access.read path tree = .ok content later ↔
    guard.contents tree path = .ok content ∧ tree = later := by
  rw [show guard.access.read path tree = _ from read_eq guard path tree, Action.settled_eq_ok_iff]

theorem cleared_iff : guard.access.Cleared search (fun tree _ => tree) tree path ↔
    ∃ content, guard.contents tree path = .ok content ∧ ¬ content.has search = true := by
  simp only [Access.Cleared, read_eq_ok_iff, and_true]
  constructor
  · rintro ⟨content, hcontent, hfree, -⟩
    exact ⟨content, hcontent, hfree⟩
  · rintro ⟨content, hcontent, hfree⟩
    obtain ⟨location, mode, hcheck, hfile⟩ := contents_eq_ok_iff.mp hcontent
    have hwrite := write_of_file hcheck hfile content
    rw [Tree.put_self hfile (Tree.ne_nil_of_file hfile)] at hwrite
    exact ⟨content, hcontent, hfree, hwrite⟩

/-- Writes to files on disk clear them under all paths that lead to them. -/
theorem clears (guard : Guard) (search : Text) : guard.access.Clears search fun tree _ => tree where
  read h := (read_eq_ok_iff.mp h).2.symm
  write := by
    intro tree later path content text hread hfree hwrite
    obtain ⟨location, mode, hcheck, hfile⟩ := contents_eq_ok_iff.mp (read_eq_ok_iff.mp hread).1
    have hput := hwrite.symm.trans (write_of_file hcheck hfile text)
    cases hput
    have hcontents := contents_put hcheck hfile text
    refine ⟨cleared_iff.mpr ⟨text, ?_, hfree⟩, fun other hother => ?_⟩
    · rw [hcontents, if_pos (sameFile_iff.mpr ⟨location, hcheck, hcheck⟩)]
    · obtain ⟨now, hnow, hnowFree⟩ := cleared_iff.mp hother
      refine cleared_iff.mpr ?_
      rw [hcontents]
      split
      · exact ⟨text, rfl, hfree⟩
      · exact ⟨now, hnow, hnowFree⟩

end BulkEdit.Disk.Guard
