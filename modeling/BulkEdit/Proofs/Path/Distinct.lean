import BulkEdit.Path.Order
import Mathlib.Data.List.Nodup

/-!
# Lists of distinct paths

Paths in order are distinct, also after some of them have been left out, and putting paths in order loses
none but other spellings. Where paths are distinct, there are no neighbours to merge.
-/

namespace BulkEdit.Path

/-- No two of the paths are the same. -/
def Distinct (paths : List Path) : Prop := paths.Pairwise fun p q => ¬ p.Same q

theorem ordered_inOrder (paths : List Path) : Ordered (inOrder paths) := by
  induction paths with
  | nil => exact List.Pairwise.nil
  | cons path rest ih => exact ordered_insertInOrder ih

theorem mem_of_mem_inOrder {paths : List Path} {p : Path} (h : p ∈ inOrder paths) : p ∈ paths := by
  induction paths with
  | nil => exact h
  | cons path rest ih =>
    rcases mem_insertInOrder h with rfl | h
    · exact List.mem_cons_self
    · exact List.mem_cons_of_mem path (ih h)

theorem mem_insertInOrder_of_mem {path p : Path} {paths : List Path} (h : p ∈ paths) :
    p ∈ insertInOrder path paths := by
  induction paths with
  | nil => cases h
  | cons other rest ih =>
    rw [insertInOrder]
    split
    · exact h
    · split
      · exact List.mem_cons_of_mem path h
      · rcases List.mem_cons.mp h with rfl | h
        · exact List.mem_cons_self
        · exact List.mem_cons_of_mem other (ih h)

theorem exists_same_mem_insertInOrder (path : Path) (paths : List Path) :
    ∃ p ∈ insertInOrder path paths, p.Same path := by
  induction paths with
  | nil => exact ⟨path, List.mem_cons_self, same_refl path⟩
  | cons other rest ih =>
    rw [insertInOrder]
    split
    next hs => exact ⟨other, List.mem_cons_self, hs.symm⟩
    · split
      · exact ⟨path, List.mem_cons_self, same_refl path⟩
      · obtain ⟨p, hp, hs⟩ := ih
        exact ⟨p, List.mem_cons_of_mem other hp, hs⟩

/-- Of each path some spelling stays. -/
theorem exists_same_mem_inOrder {paths : List Path} {path : Path} (h : path ∈ paths) :
    ∃ p ∈ inOrder paths, p.Same path := by
  induction paths with
  | nil => cases h
  | cons first rest ih =>
    rcases List.mem_cons.mp h with rfl | h
    · exact exists_same_mem_insertInOrder path (inOrder rest)
    · obtain ⟨p, hp, hs⟩ := ih h
      exact ⟨p, mem_insertInOrder_of_mem hp, hs⟩

/-- Where no path is spelled in two ways, all paths stay. -/
theorem mem_inOrder_iff {paths : List Path}
    (hsame : ∀ p ∈ paths, ∀ q ∈ paths, p.Same q → p = q) {path : Path} :
    path ∈ inOrder paths ↔ path ∈ paths := by
  refine ⟨mem_of_mem_inOrder, fun h => ?_⟩
  obtain ⟨p, hp, hs⟩ := exists_same_mem_inOrder h
  exact hsame p (mem_of_mem_inOrder hp) path h hs ▸ hp

theorem Ordered.distinct {paths : List Path} (h : Ordered paths) : Distinct paths :=
  List.Pairwise.imp not_same_of_before h

theorem Distinct.nodup {paths : List Path} (h : Distinct paths) : paths.Nodup :=
  List.Pairwise.imp (fun hs he => hs (congrArg components he)) h

/-- What is left of paths of which only one passes. -/
theorem filter_eq_singleton {paths : List Path} (hn : paths.Nodup) {path : Path} (hp : path ∈ paths)
    {passes : Path → Bool} (hself : passes path = true)
    (halone : ∀ other ∈ paths, passes other = true → other = path) :
    paths.filter passes = [path] := by
  have hpasses : ∀ other ∈ paths, passes other = (other == path) := by
    intro other ho
    rw [Bool.eq_iff_iff, beq_iff_eq]
    exact ⟨halone other ho, fun he => he ▸ hself⟩
  rw [List.filter_congr hpasses, List.filter_beq, List.count_eq_one_of_mem hn hp, List.replicate_one]

theorem mergeAfter_of_distinct {last : Path} {paths : List Path} (h : Distinct (last :: paths)) :
    mergeAfter last paths = paths := by
  induction paths generalizing last with
  | nil => rfl
  | cons p rest ih =>
    obtain ⟨hlast, hrest⟩ := List.pairwise_cons.mp h
    rw [mergeAfter, if_neg (hlast p List.mem_cons_self), ih hrest]

theorem mergeAdjacent_of_distinct {paths : List Path} (h : Distinct paths) :
    mergeAdjacent paths = paths := by
  cases paths with
  | nil => rfl
  | cons p rest => rw [mergeAdjacent, mergeAfter_of_distinct h]

end BulkEdit.Path
