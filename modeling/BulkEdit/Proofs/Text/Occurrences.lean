import BulkEdit.Text.Lines
import BulkEdit.Text.Substitution

/-!
# First occurrences and lines

A text without newlines that does not stand in a line cannot begin in that line either, whatever comes
after it. A search therefore passes over the lines in front of the first one that holds the text, and
what it finds there is the first occurrence in that line.
-/

namespace BulkEdit.Text

theorem joinWith_cons_cons (separator piece next : Text) (more : List Text) :
    joinWith separator (piece :: next :: more) =
      piece ++ separator ++ joinWith separator (next :: more) := rfl

theorem joinWith_cons (separator piece : Text) (others : List Text) :
    joinWith separator (piece :: others) = piece ++ others.flatMap (separator ++ ·) := by
  induction others generalizing piece with
  | nil => simp [joinWith]
  | cons next more ih => rw [joinWith_cons_cons, ih]; simp

theorem unlines_append_cons (before : List Text) (line : Text) (after : List Text) :
    unlines (before ++ line :: after) =
      before.flatMap (· ++ ['\n']) ++ (line ++ after.flatMap (['\n'] ++ ·)) := by
  induction before with
  | nil => exact joinWith_cons ['\n'] line after
  | cons first rest ih =>
    have hne : rest ++ line :: after ≠ [] := by simp
    obtain ⟨next, more, hm⟩ := List.exists_cons_of_ne_nil hne
    rw [List.cons_append, unlines, hm, joinWith_cons_cons, ← hm]
    change first ++ ['\n'] ++ unlines (rest ++ line :: after) = _
    rw [ih, List.flatMap_cons, List.append_assoc (first ++ ['\n'])]

theorem not_prefix_of_not_has {s t : Text} (h : ¬ t.has s = true) : ¬ s <+: t :=
  fun hp => h (has_iff_isInfix.mpr hp.isInfix)

theorem prefix_of_prefix_append_cons {s t rest : Text} {c : Char} (hs : c ∉ s)
    (h : s <+: t ++ c :: rest) : s <+: t := by
  induction t generalizing s with
  | nil =>
    cases s with
    | nil => exact List.nil_prefix
    | cons d s =>
      obtain ⟨rfl, -⟩ := List.cons_prefix_cons.mp h
      exact absurd List.mem_cons_self hs
  | cons d t ih =>
    cases s with
    | nil => exact List.nil_prefix
    | cons e s =>
      obtain ⟨rfl, hr⟩ := List.cons_prefix_cons.mp h
      exact List.cons_prefix_cons.mpr ⟨rfl, ih (fun hm => hs (List.mem_cons_of_mem _ hm)) hr⟩

theorem splitAtFirst_eq_none_iff {s t : Text} : splitAtFirst s t = none ↔ ¬ t.has s = true := by
  rw [← splitAtFirst_isSome, Option.not_isSome_iff_eq_none]

theorem splitAtFirst_of_isPrefix {s t : Text} (h : s <+: t) :
    splitAtFirst s t = some ([], t.drop s.length) := by
  cases t with
  | nil => simp [splitAtFirst, List.prefix_nil.mp h]
  | cons c rest => rw [splitAtFirst, if_pos (List.isPrefixOf_iff_prefix.mpr h)]

theorem splitAtFirst_cons_of_not_prefix {s rest : Text} {c : Char} (h : ¬ s <+: c :: rest) :
    splitAtFirst s (c :: rest) =
      (splitAtFirst s rest).map fun (before, after) => (c :: before, after) := by
  rw [splitAtFirst, if_neg (mt List.isPrefixOf_iff_prefix.mp h)]

/-- The first occurrence in a text stays the first however the text goes on. -/
theorem splitAtFirst_append {s t : Text} (h : t.has s = true) (rest : Text) :
    splitAtFirst s (t ++ rest) =
      (splitAtFirst s t).map fun (before, after) => (before, after ++ rest) := by
  induction t with
  | nil =>
    obtain rfl := List.infix_nil.mp (has_iff_isInfix.mp h)
    rw [splitAtFirst_of_isPrefix List.nil_prefix, splitAtFirst_of_isPrefix List.nil_prefix]
    simp
  | cons c t ih =>
    by_cases hp : s <+: c :: t
    · rw [splitAtFirst_of_isPrefix hp, splitAtFirst_of_isPrefix (hp.trans (List.prefix_append _ _)),
        List.drop_append_of_le_length hp.length_le]
      rfl
    · have ht : has t s = true := by
        rw [has_iff_isInfix, List.infix_cons_iff] at h
        exact has_iff_isInfix.mpr (h.resolve_left hp)
      have hp' : ¬ s <+: c :: (t ++ rest) := by
        intro hq
        have hl : s.length ≤ (c :: t).length :=
          Nat.le_succ_of_le (has_iff_isInfix.mp ht).length_le
        exact hp (List.prefix_of_prefix_length_le hq (List.prefix_append (c :: t) rest) hl)
      rw [List.cons_append, splitAtFirst_cons_of_not_prefix hp', splitAtFirst_cons_of_not_prefix hp,
        ih ht, Option.map_map, Option.map_map]
      rfl

/-- A search passes over what does not hold the text and ends in front of a character that the text does
not have. -/
theorem splitAtFirst_append_cons {s t : Text} {c : Char} (hs : c ∉ s) (h : ¬ t.has s = true)
    (rest : Text) :
    splitAtFirst s (t ++ c :: rest) =
      (splitAtFirst s rest).map fun (before, after) => (t ++ c :: before, after) := by
  induction t with
  | nil =>
    have hp : ¬ s <+: c :: rest := fun hp =>
      not_prefix_of_not_has h (prefix_of_prefix_append_cons (t := []) hs hp)
    rw [List.nil_append, splitAtFirst_cons_of_not_prefix hp]
    rfl
  | cons d t ih =>
    have hp : ¬ s <+: d :: (t ++ c :: rest) := fun hp =>
      not_prefix_of_not_has h (prefix_of_prefix_append_cons (t := d :: t) hs hp)
    have ht : ¬ has t s = true := fun ht =>
      h (has_iff_isInfix.mpr ((has_iff_isInfix.mp ht).trans (List.suffix_cons d t).isInfix))
    rw [List.cons_append, splitAtFirst_cons_of_not_prefix hp, ih ht, Option.map_map]
    rfl

/-- The first occurrence in the first line that holds the text is the first in all lines. -/
theorem splitAtFirst_unlines {s : Text} {before : List Text} {line : Text}
    (hb : ∀ other ∈ before, '\n' ∉ s ∧ ¬ other.has s = true) (h : line.has s = true)
    (after : List Text) :
    splitAtFirst s (unlines (before ++ line :: after)) =
      (splitAtFirst s line).map fun (left, right) =>
        (before.flatMap (· ++ ['\n']) ++ left, right ++ after.flatMap (['\n'] ++ ·)) := by
  rw [unlines_append_cons]
  induction before with
  | nil => exact splitAtFirst_append h _
  | cons first rest ih =>
    obtain ⟨⟨hs, hf⟩, hr⟩ := List.forall_mem_cons.mp hb
    rw [List.flatMap_cons, List.append_assoc, List.append_assoc]
    rw [List.singleton_append, splitAtFirst_append_cons hs hf, ih hr, Option.map_map]
    congr 1
    funext ⟨left, right⟩
    simp

/-- A text stands in front of a character that it does not have, or behind it. -/
theorem has_append_cons {s : Text} {c : Char} (hs : c ∉ s) (t rest : Text) :
    has (t ++ c :: rest) s = (t.has s || has rest s) := by
  by_cases h : t.has s = true
  · have hinfix := (has_iff_isInfix.mp h).trans (List.prefix_append t (c :: rest)).isInfix
    rw [h, Bool.true_or, has_iff_isInfix.mpr hinfix]
  · rw [Bool.eq_false_iff.mpr h, Bool.false_or, ← splitAtFirst_isSome, splitAtFirst_append_cons hs h,
      Option.isSome_map, splitAtFirst_isSome]

theorem has_unlines {s : Text} (hs : '\n' ∉ s) {texts : List Text} (hne : texts ≠ []) :
    (unlines texts).has s = texts.any (·.has s) := by
  induction texts with
  | nil => exact absurd rfl hne
  | cons text rest ih =>
    cases rest with
    | nil => exact (Bool.or_false _).symm
    | cons next more =>
      rw [List.any_cons, ← ih (List.cons_ne_nil next more), unlines, joinWith_cons_cons,
        List.append_assoc, List.singleton_append, has_append_cons hs, unlines]

theorem replaceFirst_of_splitAtFirst {s t before after : Text}
    (h : splitAtFirst s t = some (before, after)) (replacement : Text) :
    replaceFirst s replacement t = before ++ replacement ++ after := by
  rw [replaceFirst, h]

theorem replaceFirst_of_not_has {s t : Text} (h : ¬ t.has s = true) (replacement : Text) :
    replaceFirst s replacement t = t := by
  rw [replaceFirst, splitAtFirst_eq_none_iff.mpr h]

theorem replaceFirst_unlines {s : Text} {before : List Text} {line : Text}
    (hb : ∀ other ∈ before, '\n' ∉ s ∧ ¬ other.has s = true) (h : line.has s = true)
    (replacement : Text) (after : List Text) :
    replaceFirst s replacement (unlines (before ++ line :: after)) =
      unlines (before ++ replaceFirst s replacement line :: after) := by
  have hsome := splitAtFirst_isSome s line
  rw [h] at hsome
  obtain ⟨⟨left, right⟩, hl⟩ := Option.isSome_iff_exists.mp hsome
  have hall := splitAtFirst_unlines hb h after
  rw [hl, Option.map_some] at hall
  rw [replaceFirst_of_splitAtFirst hall, replaceFirst_of_splitAtFirst hl, unlines_append_cons]
  simp only [List.append_assoc]

theorem has_self (s : Text) : s.has s = true := has_iff_isInfix.mpr (List.infix_refl s)

theorem replaceFirst_self (s replacement : Text) : replaceFirst s replacement s = replacement := by
  rw [replaceFirst_of_splitAtFirst (splitAtFirst_of_isPrefix (List.prefix_refl s))]
  simp

end BulkEdit.Text
