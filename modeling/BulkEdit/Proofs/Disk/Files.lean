import BulkEdit.Proofs.Access.Faithful
import BulkEdit.Proofs.Disk.Guard
import BulkEdit.Proofs.Disk.Replacing
import BulkEdit.Proofs.Session.Keeping

/-!
# Files on disk

A guard reads the file that a path is let through to and changes nothing, and writes the text of that file
and nothing else, so that every path leads to where it led before. The access to a disk is faithful: the
paths that lead to one file are those that are let through to one location.
-/

namespace BulkEdit.Disk

namespace Tree

variable {tree : Tree} {location other : Location} {mode : Nat} {body later : Body} {content : Text}

theorem get?_put_file (h : tree.get? location = some (.file mode body)) (node : Node)
    (other : Location) :
    (tree.put location node).get? other = if other = location then some node else tree.get? other := by
  split
  next he => rw [he, get?_put_self (ne_nil_of_file h)]
  next he => exact get?_put_of_ne he tree node

/-- New content changes nothing but the content. -/
theorem shape_put (h : tree.get? location = some (.file mode body)) :
    (tree.put location (.file mode later)).shape = tree.shape := by
  funext other
  rw [shape, shape, get?_put_file h]
  split
  next he =>
    subst he
    rw [h]
    rfl
  next => rfl

theorem textAt_eq_ok_iff :
    tree.textAt location = .ok content ↔
      ∃ mode, tree.get? location = some (.file mode (.text content)) := by
  rw [textAt]
  split <;> simp_all

end Tree

namespace Guard

variable {guard : Guard} {tree other : Tree} {path : Path} {location : Location} {mode : Nat}
  {body : Body} {content : Text}

theorem check_of_shape (h : tree.shape = other.shape) (path : Path) :
    guard.check tree path = guard.check other path := by
  rw [check, check, Tree.resolve_of_shape h]

/-- What a read of a path comes to. -/
def contents (guard : Guard) (tree : Tree) (path : Path) : Except Failure Text :=
  match guard.check tree path with
  | .error (.unresolved path fault) => .error (.unreadable path fault)
  | .error rejection => .error (.rejected rejection)
  | .ok location =>
    match tree.textAt location with
    | .error fault => .error (.unreadable location.path fault)
    | .ok content => .ok content

theorem contents_eq_ok_iff :
    guard.contents tree path = .ok content ↔ ∃ location mode,
      guard.check tree path = .ok location ∧
      tree.get? location = some (.file mode (.text content)) := by
  rw [contents]
  split
  next h => simp [h]
  next h => simp [h]
  next location h =>
    have hloc : ∀ other, guard.check tree path = .ok other ↔ other = location := by simp [h, eq_comm]
    simp only [hloc, exists_and_left, exists_eq_left, ← Tree.textAt_eq_ok_iff]
    cases tree.textAt location <;> simp

theorem read_eq (guard : Guard) (path : Path) (tree : Tree) :
    guard.read path tree = Action.settled (guard.contents tree path) tree := by
  cases hcheck : guard.check tree path with
  | error rejection =>
    cases rejection <;> simp only [read, bind, EStateM.bind, locate, contents, hcheck] <;> rfl
  | ok location =>
    simp only [read, bind, EStateM.bind, locate, contents, hcheck, Action.get_eq]
    cases tree.textAt location <;> rfl

theorem write_of_file (hcheck : guard.check tree path = .ok location)
    (hfile : tree.get? location = some (.file mode body)) (text : Text) :
    guard.write path text tree = .ok () (tree.put location (.file mode (.text text))) := by
  simp only [write, bind, EStateM.bind, locate, hcheck, Action.get_eq, overwrite_of_file hfile]
  rfl

/-- A write fails and changes nothing, or it sets the text of the file that the path leads to. -/
theorem write_cases (guard : Guard) (path : Path) (text : Text) (tree : Tree) :
    (∃ failure, guard.write path text tree = .error failure tree) ∨
    ∃ location mode body, guard.check tree path = .ok location ∧
      tree.get? location = some (.file mode body) ∧
      guard.write path text tree = .ok () (tree.put location (.file mode (.text text))) := by
  cases hcheck : guard.check tree path with
  | error rejection =>
    refine .inl ?_
    cases rejection <;> simp only [write, bind, EStateM.bind, locate, hcheck] <;> exact ⟨_, rfl⟩
  | ok location =>
    by_cases hfile : ∃ mode body, tree.get? location = some (.file mode body)
    · obtain ⟨mode, body, hfile⟩ := hfile
      exact .inr ⟨location, mode, body, rfl, hfile, write_of_file hcheck hfile text⟩
    · simp only [not_exists] at hfile
      obtain ⟨fault, hover⟩ := overwrite_of_no_file hfile text
      refine .inl ⟨.unwritable location.path fault, ?_⟩
      simp only [write, bind, EStateM.bind, locate, hcheck, Action.get_eq, hover]
      rfl

theorem read_of_rejected {rejection : Rejection} (h : guard.check tree path = .error rejection)
    (hresolved : ∀ path fault, rejection ≠ .unresolved path fault) :
    guard.read path tree = .error (.rejected rejection) tree := by
  simp only [read, bind, EStateM.bind, locate, h]

theorem write_of_rejected {rejection : Rejection} (h : guard.check tree path = .error rejection)
    (hresolved : ∀ path fault, rejection ≠ .unresolved path fault) (text : Text) :
    guard.write path text tree = .error (.rejected rejection) tree := by
  simp only [write, bind, EStateM.bind, locate, h]

/-- That two paths are let through to the same location. -/
def SameFile (guard : Guard) (tree : Tree) (path other : Path) : Prop :=
  ∃ location ∈ (guard.check tree path).toOption, (guard.check tree other).toOption = some location

instance : DecidableRel (guard.SameFile tree) := fun _ _ =>
  inferInstanceAs (Decidable (∃ _ ∈ _, _))

theorem sameFile_iff {other : Path} : guard.SameFile tree path other ↔
    ∃ location, guard.check tree path = .ok location ∧ guard.check tree other = .ok location := by
  simp only [SameFile, Option.mem_def, toOption_eq_some_iff]

theorem contents_put (hcheck : guard.check tree path = .ok location)
    (hfile : tree.get? location = some (.file mode body)) (text : Text) (other : Path) :
    guard.contents (tree.put location (.file mode (.text text))) other =
      if guard.SameFile tree path other then .ok text else guard.contents tree other := by
  have hsame : guard.SameFile tree path other ↔ guard.check tree other = .ok location := by
    simp [sameFile_iff, hcheck]
  rw [contents, contents, check_of_shape (Tree.shape_put hfile) other]
  cases hother : guard.check tree other with
  | error rejection => cases rejection <;> simp [hsame, hother]
  | ok found =>
    by_cases he : found = location
    · subst he
      simp [hsame, hother, Tree.textAt, Tree.get?_put_file hfile]
    · simp [hsame, hother, he, Tree.textAt, Tree.get?_put_file hfile]

/-- The disk as it is reached from `tree` by writing into files. -/
theorem faithful_access (guard : Guard) (tree : Tree) :
    guard.access.Faithful guard.contents (guard.SameFile tree) fun now => now.shape = tree.shape where
  read := fun {now} hnow path => ⟨now, hnow, rfl, read_eq guard path now⟩
  write := by
    intro now hnow path content hcontent text
    obtain ⟨location, mode, hcheck, hfile⟩ := contents_eq_ok_iff.mp hcontent
    have hsame : ∀ other, guard.SameFile tree path other ↔ guard.SameFile now path other := by
      intro other
      simp only [sameFile_iff, check_of_shape hnow]
    refine ⟨_, (Tree.shape_put hfile).trans hnow, write_of_file hcheck hfile text, ?_, ?_⟩
    · intro other ho
      rw [contents_put hcheck hfile, if_pos ((hsame other).mp ho)]
    · intro other ho
      rw [contents_put hcheck hfile, if_neg fun h => ho ((hsame other).mpr h)]
  shared := by
    intro now hnow path other content hsame hcontent
    obtain ⟨location, mode, hcheck, hfile⟩ := contents_eq_ok_iff.mp hcontent
    obtain ⟨found, hpath, hother⟩ := sameFile_iff.mp hsame
    rw [← check_of_shape hnow, hcheck] at hpath
    cases hpath
    exact contents_eq_ok_iff.mpr ⟨location, mode, (check_of_shape hnow other).trans hother, hfile⟩
  same_self := by
    intro now hnow path content hcontent
    obtain ⟨location, -, hcheck, -⟩ := contents_eq_ok_iff.mp hcontent
    rw [check_of_shape hnow] at hcheck
    exact sameFile_iff.mpr ⟨location, hcheck, hcheck⟩
  same_symm := by
    intro path other h
    obtain ⟨location, hpath, hother⟩ := sameFile_iff.mp h
    exact sameFile_iff.mpr ⟨location, hother, hpath⟩

theorem after_read (guard : Guard) (path : Path) (tree : Tree) :
    (guard.read path).after tree = tree := by
  rw [Action.after, read_eq]
  cases guard.contents tree path <;> rfl

theorem after_find (guard : Guard) (patterns : List Text) (tree : Tree) :
    (guard.find patterns).after tree = tree := by
  rw [Action.after, find]
  cases Selection.ofPatterns patterns with
  | error reason => rfl
  | ok selection => cases guard.candidates tree <;> rfl

variable {P : Tree → Prop}

theorem keeps_read (guard : Guard) (path : Path) : (guard.access.read path).Keeps P :=
  fun tree h => (after_read guard path tree).symm ▸ h

theorem keeps_find (guard : Guard) (patterns : List Text) : (guard.access.find patterns).Keeps P :=
  fun tree h => (after_find guard patterns tree).symm ▸ h

/-- What a write keeps is what each change keeps that it can make. -/
theorem keeps_write {text : Text}
    (h : ∀ {tree location mode body}, P tree → guard.check tree path = .ok location →
      tree.get? location = some (.file mode body) → P (tree.put location (.file mode (.text text)))) :
    (guard.access.write path text).Keeps P := by
  intro tree ht
  rcases write_cases guard path text tree with
    ⟨failure, hwrite⟩ | ⟨location, mode, body, hcheck, hfile, hwrite⟩
  · rw [show (guard.access.write path text).after tree = tree from Action.after_of_error hwrite]
    exact ht
  · rw [show (guard.access.write path text).after tree = _ from Action.after_of_ok hwrite]
    exact h ht hcheck hfile

end Guard

end BulkEdit.Disk
