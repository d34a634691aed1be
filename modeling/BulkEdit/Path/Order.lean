import BulkEdit.Path.Basic

/-!
# Paths in order

Paths are put in order one by one. Of two spellings of one path the one that comes later in the list
stays. The order is that of the components, so that two paths neither of which comes before the other
are the same.
-/

namespace BulkEdit

theorem Component.key_inj {a b : Component} (h : a.key = b.key) : a = b := by
  cases a <;> cases b <;> simp only [Component.key, List.cons.injEq] at h <;> try omega
  case name.name s t =>
    rw [(List.map_inj_right fun _ _ => Char.toNat_inj.mp).mp h.2]
  all_goals rfl

namespace Path

/-- Puts a path in its place among paths in order, unless it is there already. -/
def insertInOrder (path : Path) : List Path → List Path
  | [] => [path]
  | other :: rest =>
    if path.Same other then other :: rest
    else if path.before other then path :: other :: rest
    else other :: insertInOrder path rest

def inOrder (paths : List Path) : List Path := paths.foldr insertInOrder []

/-- Each path comes before all those behind it. -/
def Ordered (paths : List Path) : Prop := paths.Pairwise fun p q => p.before q = true

theorem key_eq_iff {p q : Path} : p.key = q.key ↔ p.Same q :=
  List.map_inj_right fun _ _ => Component.key_inj

theorem before_iff {p q : Path} : p.before q = true ↔ compare p.key q.key = .lt := beq_iff_eq

theorem before_trans {p q r : Path} (h : p.before q = true) (k : q.before r = true) :
    p.before r = true :=
  before_iff.mpr (Std.TransCmp.lt_trans (before_iff.mp h) (before_iff.mp k))

theorem not_same_of_before {p q : Path} (h : p.before q = true) : ¬ p.Same q := by
  intro hs
  have hc := before_iff.mp h
  rw [key_eq_iff.mpr hs, Std.ReflOrd.compare_self] at hc
  cases hc

theorem before_of_not_before {p q : Path} (hs : ¬ p.Same q) (hb : ¬ p.before q = true) :
    q.before p = true := by
  rw [before_iff] at hb ⊢
  cases hc : compare p.key q.key with
  | lt => exact absurd hc hb
  | eq => exact absurd (key_eq_iff.mp (Std.LawfulEqOrd.eq_of_compare hc)) hs
  | gt => exact Std.OrientedCmp.lt_of_gt hc

theorem mem_insertInOrder {path p : Path} {paths : List Path} (h : p ∈ insertInOrder path paths) :
    p = path ∨ p ∈ paths := by
  induction paths with
  | nil => exact .inl (List.mem_singleton.mp h)
  | cons other rest ih =>
    rw [insertInOrder] at h
    split at h
    · exact .inr h
    · split at h
      · exact List.mem_cons.mp h
      · rcases List.mem_cons.mp h with rfl | h
        · exact .inr List.mem_cons_self
        · exact (ih h).imp_right (List.mem_cons_of_mem other)

theorem ordered_insertInOrder {path : Path} {paths : List Path} (h : Ordered paths) :
    Ordered (insertInOrder path paths) := by
  induction paths with
  | nil => exact List.pairwise_singleton _ _
  | cons other rest ih =>
    obtain ⟨hother, hrest⟩ := List.pairwise_cons.mp h
    rw [insertInOrder]
    split
    · exact h
    next hs =>
      split
      next hb =>
        refine List.pairwise_cons.mpr ⟨fun q hq => ?_, h⟩
        rcases List.mem_cons.mp hq with rfl | hq
        · exact hb
        · exact before_trans hb (hother q hq)
      next hb =>
        refine List.pairwise_cons.mpr ⟨fun q hq => ?_, ih hrest⟩
        rcases mem_insertInOrder hq with rfl | hq
        · exact before_of_not_before hs hb
        · exact hother q hq

end Path

end BulkEdit
