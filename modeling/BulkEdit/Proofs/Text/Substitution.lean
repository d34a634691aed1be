import BulkEdit.Proofs.Text.Occurrences

/-!
# Replacing everywhere, line by line

A text without newlines stands within one line wherever it stands. To replace it everywhere in a text is
therefore to replace it everywhere in each line, whatever is put in its place. The same comes of
rewriting one line after the other at the first stretch that reads like the line, as long as no line
that has been rewritten holds the search text any more.
-/

namespace BulkEdit.Text

theorem has_trans {t u s : Text} (h : t.has u = true) (k : u.has s = true) : t.has s = true :=
  has_iff_isInfix.mpr ((has_iff_isInfix.mp k).trans (has_iff_isInfix.mp h))

theorem ne_nil_of_not_has {t s : Text} (h : ¬ t.has s = true) : s ≠ [] := by
  rintro rfl
  exact h (has_iff_isInfix.mpr (List.nil_infix))

theorem replaceFrom_of_isPrefix {search rest : Text} {c : Char} (h : search <+: c :: rest)
    (replacement : Text) :
    replaceFrom search replacement 0 (c :: rest) =
      replacement ++ replaceFrom search replacement (search.length - 1) rest := by
  rw [replaceFrom, if_pos (List.isPrefixOf_iff_prefix.mpr h)]

theorem replaceFrom_of_not_isPrefix {search rest : Text} {c : Char} (h : ¬ search <+: c :: rest)
    (replacement : Text) :
    replaceFrom search replacement 0 (c :: rest) =
      c :: replaceFrom search replacement 0 rest := by
  rw [replaceFrom, if_neg (mt List.isPrefixOf_iff_prefix.mp h)]

theorem replaceFrom_of_not_has {search t : Text} (h : ¬ t.has search = true) (replacement : Text) :
    replaceFrom search replacement 0 t = t := by
  induction t with
  | nil => rfl
  | cons c rest ih =>
    have hrest : ¬ has rest search = true := fun hr =>
      h (has_trans (has_iff_isInfix.mpr (List.suffix_cons c rest).isInfix) hr)
    rw [replaceFrom_of_not_isPrefix (not_prefix_of_not_has h), ih hrest]

/-- Where there is nothing to replace, the text stays. -/
theorem replaceAll_of_not_has {search t : Text} (h : ¬ t.has search = true) (replacement : Text) :
    replaceAll search replacement t = t := by
  have hne : ¬ search.isEmpty = true := by simpa using ne_nil_of_not_has h
  rw [replaceAll, if_neg hne, replaceFrom_of_not_has h]

theorem interleave_append_newline (filler t rest : Text) :
    interleave filler (t ++ '\n' :: rest) =
      interleave filler t ++ '\n' :: interleave filler rest := by
  induction t with
  | nil => simp [interleave]
  | cons c t ih => simp [interleave, ih]

/-- What is still to be dropped of a match lies in front of the newline. -/
theorem replaceFrom_append_newline {search : Text} (hs : '\n' ∉ search) (hne : search ≠ [])
    (replacement : Text) {t : Text} (rest : Text) {skip : Nat} (hskip : skip ≤ t.length) :
    replaceFrom search replacement skip (t ++ '\n' :: rest) =
      replaceFrom search replacement skip t ++ '\n' :: replaceFrom search replacement 0 rest := by
  induction t generalizing skip with
  | nil =>
    obtain rfl := Nat.le_zero.mp hskip
    have hp : ¬ search <+: '\n' :: rest := fun hp =>
      hne (List.prefix_nil.mp (prefix_of_prefix_append_cons (t := []) hs hp))
    exact replaceFrom_of_not_isPrefix hp replacement
  | cons c t ih =>
    cases skip with
    | succ skip => exact ih (Nat.le_of_succ_le_succ hskip)
    | zero =>
      rw [List.cons_append]
      by_cases hp : search <+: c :: t
      · have hp' : search <+: c :: (t ++ '\n' :: rest) := hp.trans (List.prefix_append (c :: t) _)
        have hlen : search.length - 1 ≤ t.length := Nat.sub_le_of_le_add hp.length_le
        rw [replaceFrom_of_isPrefix hp, replaceFrom_of_isPrefix hp', ih hlen, List.append_assoc]
      · have hp' : ¬ search <+: c :: (t ++ '\n' :: rest) := fun hq =>
          hp (prefix_of_prefix_append_cons (t := c :: t) hs hq)
        rw [replaceFrom_of_not_isPrefix hp, replaceFrom_of_not_isPrefix hp', ih (Nat.zero_le _),
          List.cons_append]

theorem replaceAll_append_newline {search : Text} (hs : '\n' ∉ search) (replacement t rest : Text) :
    replaceAll search replacement (t ++ '\n' :: rest) =
      replaceAll search replacement t ++ '\n' :: replaceAll search replacement rest := by
  by_cases hne : search = []
  · subst hne
    exact interleave_append_newline replacement t rest
  · have he : ¬ search.isEmpty = true := by simpa using hne
    simp only [replaceAll, if_neg he]
    exact replaceFrom_append_newline hs hne replacement rest (Nat.zero_le _)

theorem unlines_cons_cons (text next : Text) (more : List Text) :
    unlines (text :: next :: more) = text ++ '\n' :: unlines (next :: more) := by
  rw [unlines, joinWith_cons_cons, List.append_assoc, List.singleton_append, unlines]

/-- Replacing everywhere in lines is replacing everywhere in each line. -/
theorem replaceAll_unlines {search : Text} (hs : '\n' ∉ search) (replacement : Text)
    {texts : List Text} (hne : texts ≠ []) :
    replaceAll search replacement (unlines texts) =
      unlines (texts.map (replaceAll search replacement)) := by
  induction texts with
  | nil => exact absurd rfl hne
  | cons text rest ih =>
    cases rest with
    | nil => rfl
    | cons next more =>
      rw [unlines_cons_cons, replaceAll_append_newline hs, ih (List.cons_ne_nil next more)]
      simp only [List.map_cons, unlines_cons_cons]

/-- Each line that holds `search`, in order, is looked up in all lines and rewritten there. It is found
in its own place: a line above that reads like it would still hold `search`. -/
theorem foldl_replaceFirst_lines {search replacement : Text} {above below : List Text}
    (hclean : ∀ line ∈ above, ¬ (replaceAll search replacement line).has search = true)
    (hbelow : ∀ line ∈ below, '\n' ∉ line ∧ ¬ (replaceAll search replacement line).has search = true) :
    (below.filter (·.has search)).foldl
        (fun text line => replaceFirst line (replaceAll search replacement line) text)
        (unlines (above.map (replaceAll search replacement) ++ below)) =
      unlines ((above ++ below).map (replaceAll search replacement)) := by
  induction below generalizing above with
  | nil => simp
  | cons line rest ih =>
    obtain ⟨⟨hnl, hline⟩, hrest⟩ := List.forall_mem_cons.mp hbelow
    have hclean' : ∀ other ∈ above ++ [line],
        ¬ (replaceAll search replacement other).has search = true := by
      intro other ho
      rcases List.mem_append.mp ho with ho | ho
      · exact hclean other ho
      · obtain rfl := List.mem_singleton.mp ho
        exact hline
    have hnext := ih hclean' hrest
    rw [List.map_append, List.map_singleton, List.append_assoc, List.append_assoc,
      List.singleton_append, List.singleton_append] at hnext
    rw [List.filter_cons]
    split
    next hs =>
      -- a rewritten line above that had this one in it would have the search text in it
      have habove : ∀ other ∈ above.map (replaceAll search replacement),
          '\n' ∉ line ∧ ¬ other.has line = true := by
        intro other ho
        obtain ⟨text, ht, rfl⟩ := List.mem_map.mp ho
        exact ⟨hnl, fun hl => hclean text ht (has_trans hl hs)⟩
      rw [List.foldl_cons, replaceFirst_unlines habove (has_self line), replaceFirst_self]
      exact hnext
    next hs =>
      rw [replaceAll_of_not_has hs] at hnext
      exact hnext

end BulkEdit.Text
