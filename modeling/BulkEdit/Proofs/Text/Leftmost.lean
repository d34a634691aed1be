import BulkEdit.Edit.Basic
import BulkEdit.Proofs.Text.Substitution
import Mathlib.Logic.ExistsUnique

/-!
# Leftmost occurrences

A text that is not empty cuts every other text in one way only, if each cut is made at the first place
where it can be made. Replacing everywhere puts the replacement into every cut, and replacing once puts
it into the first one, in both cases between pieces of the text as it was.
-/

namespace BulkEdit.Text

/-- That `search`, looked for in `gap` followed by it, is found nowhere but at the end. -/
def OnlyAtEnd (search gap : Text) : Prop :=
  ∀ before after, gap ++ search = before ++ search ++ after → after = []

/-- That a text is made of gaps with `search` between each two, where `search` is first found at the end
of a gap by who looks for it from where the gap begins, and is not found in the last gap. -/
structure Cut (search text : Text) (gaps : List Text) : Prop where
  joined : text = joinWith search gaps
  ne_nil : gaps ≠ []
  parted : ∀ gap ∈ gaps.dropLast, OnlyAtEnd search gap
  last : ∀ gap ∈ gaps.getLast?, ¬ gap.has search = true

/-- The gaps put together again, with `replacement` for the first `search`. -/
def joinFirst (search replacement : Text) : List Text → Text
  | gap :: next :: more => gap ++ replacement ++ joinWith search (next :: more)
  | gaps => joinWith search gaps

variable {search text gap : Text}

theorem onlyAtEnd_nil (search : Text) : OnlyAtEnd search [] := by
  intro before after h
  have hlength := congrArg List.length h
  simp only [List.length_append, List.length_nil] at hlength
  exact List.eq_nil_of_length_eq_zero (by omega)

theorem onlyAtEnd_cons_iff {c : Char} :
    OnlyAtEnd search (c :: gap) ↔ ¬ search <+: c :: (gap ++ search) ∧ OnlyAtEnd search gap := by
  constructor
  · refine fun h => ⟨?_, fun before after hg => ?_⟩
    · rintro ⟨after, ha⟩
      have hnil : after = [] := h [] after (by rw [List.nil_append, ha, List.cons_append])
      have hlength := congrArg List.length ha
      simp only [hnil, List.length_append, List.length_cons, List.length_nil] at hlength
      omega
    · exact h (c :: before) after (by simp only [List.cons_append, hg])
  · rintro ⟨hp, h⟩ before after hg
    cases before with
    | nil => exact absurd ⟨after, hg.symm⟩ hp
    | cons d before =>
      simp only [List.cons_append, List.cons.injEq] at hg
      exact h before after hg.2

/-- A search meets what is found only at the end of a gap there, however the text goes on. -/
theorem splitAtFirst_of_onlyAtEnd (h : OnlyAtEnd search gap) (rest : Text) :
    splitAtFirst search (gap ++ search ++ rest) = some (gap, rest) := by
  induction gap with
  | nil =>
    rw [List.nil_append, splitAtFirst_of_isPrefix (List.prefix_append search rest), List.drop_left]
  | cons c gap ih =>
    obtain ⟨hp, hgap⟩ := onlyAtEnd_cons_iff.mp h
    have hp' : ¬ search <+: c :: (gap ++ search ++ rest) := by
      intro hq
      have hlength : search.length ≤ (c :: (gap ++ search)).length := by
        simp only [List.length_cons, List.length_append]
        omega
      exact hp (List.prefix_of_prefix_length_le hq (List.prefix_append (c :: (gap ++ search)) rest)
        hlength)
    rw [List.cons_append, List.cons_append, splitAtFirst_cons_of_not_prefix hp', ih hgap]
    rfl

/-- A search either succeeds where it begins or goes on behind the first character. -/
theorem splitAtFirst_cons_cases {c : Char} {rest before after : Text}
    (h : splitAtFirst search (c :: rest) = some (before, after)) :
    (search <+: c :: rest ∧ before = [] ∧ after = (c :: rest).drop search.length) ∨
      ¬ search <+: c :: rest ∧
        ∃ left, before = c :: left ∧ splitAtFirst search rest = some (left, after) := by
  by_cases hp : search <+: c :: rest
  · have hsplit := splitAtFirst_of_isPrefix hp
    rw [h] at hsplit
    cases hsplit
    exact .inl ⟨hp, rfl, rfl⟩
  · have hsplit := splitAtFirst_cons_of_not_prefix hp
    rw [h] at hsplit
    obtain ⟨⟨left, right⟩, hrest, he⟩ := Option.map_eq_some_iff.mp hsplit.symm
    cases he
    exact .inr ⟨hp, left, rfl, hrest⟩

theorem onlyAtEnd_of_splitAtFirst {after : Text} (h : splitAtFirst search text = some (gap, after)) :
    OnlyAtEnd search gap := by
  induction text generalizing gap with
  | nil =>
    rw [splitAtFirst] at h
    split at h
    · cases h
      exact onlyAtEnd_nil search
    · cases h
  | cons c rest ih =>
    rcases splitAtFirst_cons_cases h with ⟨-, rfl, -⟩ | ⟨hp, left, rfl, hrest⟩
    · exact onlyAtEnd_nil search
    · have htext : rest = left ++ search ++ after := eq_of_splitAtFirst hrest
      refine onlyAtEnd_cons_iff.mpr ⟨fun hq => hp (hq.trans ?_), ih hrest⟩
      exact ⟨after, by rw [htext, List.cons_append]⟩

theorem onlyAtEnd_iff :
    OnlyAtEnd search gap ↔ splitAtFirst search (gap ++ search) = some (gap, []) := by
  refine ⟨fun h => ?_, onlyAtEnd_of_splitAtFirst⟩
  have hsplit := splitAtFirst_of_onlyAtEnd h []
  rwa [List.append_nil] at hsplit

instance (search gap : Text) : Decidable (OnlyAtEnd search gap) := decidable_of_iff' _ onlyAtEnd_iff

instance (search text : Text) (gaps : List Text) : Decidable (Cut search text gaps) :=
  decidable_of_iff
    (text = joinWith search gaps ∧ gaps ≠ [] ∧ (∀ gap ∈ gaps.dropLast, OnlyAtEnd search gap) ∧
      ∀ gap ∈ gaps.getLast?, ¬ gap.has search = true)
    ⟨fun ⟨hj, hn, hp, hl⟩ => ⟨hj, hn, hp, hl⟩, fun ⟨hj, hn, hp, hl⟩ => ⟨hj, hn, hp, hl⟩⟩

theorem cut_singleton (h : ¬ text.has search = true) : Cut search text [text] where
  joined := rfl
  ne_nil := List.cons_ne_nil text []
  parted := nofun
  last := by simpa using h

theorem Cut.cons {rest : Text} {gaps : List Text} (hgap : OnlyAtEnd search gap)
    (h : Cut search rest gaps) : Cut search (gap ++ search ++ rest) (gap :: gaps) := by
  obtain ⟨next, more, rfl⟩ := List.exists_cons_of_ne_nil h.ne_nil
  refine ⟨?_, List.cons_ne_nil gap _, ?_, ?_⟩
  · rw [joinWith_cons_cons, ← h.joined]
  · rw [List.dropLast_cons_cons]
    exact List.forall_mem_cons.mpr ⟨hgap, h.parted⟩
  · rw [List.getLast?_cons_cons]
    exact h.last

/-- A cut text is one gap without an occurrence, or its first gap ends where a search first meets
something and the text behind is cut by the other gaps. -/
theorem Cut.cases {gaps : List Text} (h : Cut search text gaps) :
    (splitAtFirst search text = none ∧ gaps = [text]) ∨
      ∃ gap rest others, splitAtFirst search text = some (gap, rest) ∧ gaps = gap :: others ∧
        Cut search rest others := by
  obtain ⟨hjoined, hne, hparted, hlast⟩ := h
  match gaps with
  | [] => exact absurd rfl hne
  | [gap] =>
    obtain rfl : text = gap := hjoined
    exact .inl ⟨splitAtFirst_eq_none_iff.mpr (hlast text rfl), rfl⟩
  | gap :: next :: more =>
    rw [List.dropLast_cons_cons] at hparted
    obtain ⟨hgap, hothers⟩ := List.forall_mem_cons.mp hparted
    rw [List.getLast?_cons_cons] at hlast
    refine .inr ⟨gap, joinWith search (next :: more), next :: more, ?_, rfl,
      ⟨rfl, List.cons_ne_nil next more, hothers, hlast⟩⟩
    rw [hjoined, joinWith_cons_cons]
    exact splitAtFirst_of_onlyAtEnd hgap _

/-- The text behind the first occurrence is shorter, so that every text can be cut. -/
theorem exists_cut (hsearch : search ≠ []) (text : Text) : ∃ gaps, Cut search text gaps := by
  induction hn : text.length using Nat.strongRecOn generalizing text with
  | ind n ih =>
    cases hsplit : splitAtFirst search text with
    | none => exact ⟨[text], cut_singleton (splitAtFirst_eq_none_iff.mp hsplit)⟩
    | some found =>
      obtain ⟨gap, rest⟩ := found
      have htext := eq_of_splitAtFirst hsplit
      have hpos := List.length_pos_iff.mpr hsearch
      have hshorter : rest.length < n := by
        rw [← hn, htext]
        simp only [List.length_append]
        omega
      obtain ⟨gaps, hgaps⟩ := ih rest.length hshorter rest rfl
      exact ⟨gap :: gaps, htext ▸ hgaps.cons (onlyAtEnd_of_splitAtFirst hsplit)⟩

theorem Cut.unique {gaps others : List Text} (h : Cut search text gaps)
    (k : Cut search text others) : gaps = others := by
  induction gaps generalizing text others with
  | nil => exact absurd rfl h.ne_nil
  | cons first rest ih =>
    rcases h.cases with ⟨hnone, hgaps⟩ | ⟨gap, behind, more, hsome, hgaps, hbehind⟩
    · rcases k.cases with ⟨-, hothers⟩ | ⟨_, _, _, hsome, -, -⟩
      · rw [hgaps, hothers]
      · rw [hnone] at hsome
        cases hsome
    · rcases k.cases with ⟨hnone, -⟩ | ⟨_, _, more', hsome', hothers, hbehind'⟩
      · rw [hsome] at hnone
        cases hnone
      · rw [hsome] at hsome'
        cases hsome'
        cases hgaps
        rw [hothers, ih hbehind hbehind']

theorem replaceFrom_eq_drop (search replacement : Text) (skip : Nat) (text : Text) :
    replaceFrom search replacement skip text =
      replaceFrom search replacement 0 (text.drop skip) := by
  induction text generalizing skip with
  | nil => cases skip <;> rfl
  | cons c rest ih =>
    cases skip with
    | zero => rfl
    | succ skip => exact ih skip

theorem replaceFrom_of_splitAtFirst (hsearch : search ≠ []) {before after : Text}
    (h : splitAtFirst search text = some (before, after)) (replacement : Text) :
    replaceFrom search replacement 0 text =
      before ++ replacement ++ replaceFrom search replacement 0 after := by
  induction text generalizing before with
  | nil => simp [splitAtFirst, hsearch] at h
  | cons c rest ih =>
    rcases splitAtFirst_cons_cases h with ⟨hp, rfl, rfl⟩ | ⟨hp, left, rfl, hrest⟩
    · obtain ⟨d, tail, rfl⟩ := List.exists_cons_of_ne_nil hsearch
      rw [replaceFrom_of_isPrefix hp, replaceFrom_eq_drop]
      rfl
    · rw [replaceFrom_of_not_isPrefix hp, ih hrest]
      rfl

theorem Cut.replaceFrom {gaps : List Text} (hsearch : search ≠ []) (h : Cut search text gaps)
    (replacement : Text) :
    replaceFrom search replacement 0 text = joinWith replacement gaps := by
  induction gaps generalizing text with
  | nil => exact absurd rfl h.ne_nil
  | cons first rest ih =>
    rcases h.cases with ⟨hnone, hgaps⟩ | ⟨gap, behind, others, hsome, hgaps, hbehind⟩
    · rw [hgaps, replaceFrom_of_not_has (splitAtFirst_eq_none_iff.mp hnone)]
      rfl
    · cases hgaps
      obtain ⟨next, more, rfl⟩ := List.exists_cons_of_ne_nil hbehind.ne_nil
      rw [replaceFrom_of_splitAtFirst hsearch hsome, ih hbehind, joinWith_cons_cons]

theorem Cut.replaceFirst {gaps : List Text} (h : Cut search text gaps) (replacement : Text) :
    replaceFirst search replacement text = joinFirst search replacement gaps := by
  rcases h.cases with ⟨hnone, rfl⟩ | ⟨gap, rest, others, hsome, rfl, hrest⟩
  · rw [Text.replaceFirst, hnone]
    rfl
  · obtain ⟨next, more, rfl⟩ := List.exists_cons_of_ne_nil hrest.ne_nil
    rw [replaceFirst_of_splitAtFirst hsome, hrest.joined, joinFirst]

theorem interleave_eq (filler text : Text) :
    interleave filler text = text.flatMap (fun c => filler ++ [c]) ++ filler := by
  induction text with
  | nil => rfl
  | cons c rest ih => simp [interleave, ih]

end BulkEdit.Text

namespace BulkEdit.Manner

open Text (Cut joinWith joinFirst)

/-- What is searched for cuts the text in exactly one way, and the replacements stand in its cuts. The
empty text is before every character and at the end. -/
theorem replace_at_cuts (search replacement text : Text) :
    (search ≠ [] → (∃! gaps, Cut search text gaps) ∧
      ∀ gaps, Cut search text gaps →
        every.replace search replacement text = joinWith replacement gaps ∧
        first.replace search replacement text = joinFirst search replacement gaps) ∧
    every.replace [] replacement text = text.flatMap (fun c => replacement ++ [c]) ++ replacement ∧
    first.replace [] replacement text = replacement ++ text := by
  refine ⟨fun hsearch => ⟨?_, fun gaps hgaps => ⟨?_, hgaps.replaceFirst replacement⟩⟩, ?_, ?_⟩
  · obtain ⟨gaps, hgaps⟩ := Text.exists_cut hsearch text
    exact ⟨gaps, hgaps, fun others hothers => hothers.unique hgaps⟩
  · have hne : ¬ search.isEmpty = true := by simpa using hsearch
    rw [replace, Text.replaceAll, if_neg hne, hgaps.replaceFrom hsearch]
  · exact Text.interleave_eq replacement text
  · have hsplit : Text.splitAtFirst [] text = some ([], text) :=
      Text.splitAtFirst_of_isPrefix List.nil_prefix
    exact Text.replaceFirst_of_splitAtFirst hsplit replacement

/-- A search text that overlaps with itself, three of its characters in a row, and a replacement that
holds it. -/
theorem replace_at_cuts_of_overlap :
    let search : Text := ['a', 'a']
    let replacement : Text := ['b', 'a', 'a']
    let text : Text := ['a', 'a', 'a', 'c', 'a', 'a']
    let gaps : List Text := [[], ['a', 'c'], []]
    search ≠ [] ∧ Cut search text gaps ∧
    every.replace search replacement text = ['b', 'a', 'a', 'a', 'c', 'b', 'a', 'a'] ∧
    first.replace search replacement text = ['b', 'a', 'a', 'a', 'c', 'a', 'a'] := by
  intro search replacement text gaps
  have hsearch : search ≠ [] := by decide
  have hgaps : Cut search text gaps := by decide
  obtain ⟨hevery, hfirst⟩ := ((replace_at_cuts search replacement text).1 hsearch).2 gaps hgaps
  exact ⟨hsearch, hgaps, hevery, hfirst⟩

end BulkEdit.Manner
