import BulkEdit.Proofs.Disk.Confinement
import BulkEdit.Proofs.Disk.Finding

/-!
# What files are found by

Files are found by their names, by what stands where and by the targets of links. What the files hold makes
no difference, so that the same files are found again after some have been written.
-/

namespace BulkEdit.Disk

/-- That two trees differ at most in what their files hold. -/
structure Tree.Alike (tree other : Tree) : Prop where
  shape : tree.shape = other.shape
  locations : tree.entries.map Prod.fst = other.entries.map Prod.fst

namespace Tree

variable {tree other : Tree} {location : Location} {mode : Nat} {body : Body}

theorem Alike.refl (tree : Tree) : tree.Alike tree := ⟨rfl, rfl⟩

theorem Alike.symm (h : tree.Alike other) : other.Alike tree := ⟨h.shape.symm, h.locations.symm⟩

theorem Alike.put (h : tree.Alike other) (hfile : tree.get? location = some (.file mode body))
    (later : Body) : (tree.put location (.file mode later)).Alike other where
  shape := (shape_put hfile).trans h.shape
  locations := (map_fst_putIn (exists_entry_of_get? hfile (ne_nil_of_file hfile)) _).trans h.locations

theorem filterMap_of_map_fst {α β γ : Type} {xs ys : List (α × β)}
    (h : xs.map Prod.fst = ys.map Prod.fst) {f : α × β → Option γ} (hf : ∀ x y, x.1 = y.1 → f x = f y) :
    xs.filterMap f = ys.filterMap f := by
  induction xs generalizing ys with
  | nil => rw [List.map_eq_nil_iff.mp h.symm]
  | cons x rest ih =>
    obtain ⟨y, others, rfl, hy, hothers⟩ := List.map_eq_cons_iff.mp h.symm
    rw [List.filterMap_cons, List.filterMap_cons, hf x y hy.symm, ih hothers.symm]

theorem Alike.names (h : tree.Alike other) (folder : Location) :
    tree.names folder = other.names folder :=
  filterMap_of_map_fst h.locations fun _ _ he => by rw [he]

theorem Alike.height (h : tree.Alike other) : tree.height = other.height := by
  have hheight : ∀ tree : Tree, tree.height =
      (tree.entries.map Prod.fst).foldr (fun location height => max location.length height) 0 := by
    intro tree
    rw [List.foldr_map]
    rfl
  rw [hheight, hheight, h.locations]

theorem Alike.walk (h : tree.Alike other) (depth : Nat) (folder : Location) :
    tree.walk depth folder = other.walk depth folder := by
  induction depth generalizing folder with
  | zero => rfl
  | succ depth ih =>
    rw [Tree.walk, Tree.walk, h.names]
    refine List.flatMap_congr fun name _ => ?_
    rcases get?_of_shape (congrFun h.shape (folder ++ [name])) with
      he | ⟨mode, body, later, htree, hother⟩
    · rw [he, ih]
    · rw [htree, hother]

theorem isFile_of_shape (h : tree.shape = other.shape) (path : Path) :
    tree.isFile path = other.isFile path := by
  rw [isFile, isFile, resolve_of_shape h]
  cases other.resolve path with
  | error fault => rfl
  | ok location =>
    dsimp only
    rcases get?_of_shape (congrFun h location) with he | ⟨mode, body, later, htree, hother⟩
    · rw [he]
    · rw [htree, hother]
      rfl

theorem putIn_self {entries : List (Location × Node)} {node : Node}
    (h : (entries.find? fun entry => entry.1 == location).map Prod.snd = some node) :
    putIn location node entries = entries := by
  induction entries with
  | nil => cases h
  | cons entry rest ih =>
    rw [putIn]
    by_cases he : entry.1 = location
    · simp only [List.find?_cons, beq_iff_eq.mpr he, Option.map_some, Option.some.injEq] at h
      rw [if_pos he, ← h, ← he]
    · simp only [List.find?_cons, beq_eq_false_iff_ne.mpr he] at h
      rw [if_neg he, ih h]

/-- What is put where it stands already changes nothing. -/
theorem put_self {node : Node} (h : tree.get? location = some node) (hne : location ≠ []) :
    tree.put location node = tree := by
  rw [get?, if_neg hne] at h
  rw [put, putIn_self h]

end Tree

namespace Guard

variable {guard : Guard} {tree other : Tree}

theorem candidates_of_alike (h : tree.Alike other) :
    guard.candidates tree = guard.candidates other := by
  simp only [candidates, Tree.resolve_of_shape h.shape, h.height, h.walk]
  cases other.resolve guard.rootPath with
  | error fault => rfl
  | ok start =>
    simp only [bind, Except.bind]
    rcases Tree.get?_of_shape (congrFun h.shape start) with he | ⟨mode, body, later, htree, hother⟩
    · rw [he]
    · rw [htree, hother]

theorem isEligible_of_alike (h : tree.Alike other) (selection : Selection) :
    guard.isEligible tree selection = guard.isEligible other selection := by
  funext names
  rw [isEligible, isEligible, Tree.isFile_of_shape h.shape, check_of_shape h.shape]

/-- The same files are found where the trees differ in contents only. -/
theorem find_of_alike (h : tree.Alike other) {patterns : List Text} {found : List Path} {later : Tree}
    (hfind : guard.find patterns tree = .ok found later) :
    guard.find patterns other = .ok found other := by
  rw [find] at hfind ⊢
  cases hselection : Selection.ofPatterns patterns with
  | error reason =>
    rw [hselection] at hfind
    cases hfind
  | ok selection =>
    rw [hselection] at hfind
    dsimp only at hfind ⊢
    rw [← candidates_of_alike h, ← isEligible_of_alike h]
    cases hcandidates : guard.candidates tree with
    | error fault =>
      rw [hcandidates] at hfind
      cases hfind
    | ok candidates =>
      rw [hcandidates] at hfind
      cases hfind
      rfl

end Guard

end BulkEdit.Disk
