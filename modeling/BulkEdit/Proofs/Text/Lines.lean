import BulkEdit.Text.Lines

/-!
# Lines of a text and texts of lines

The lines of a text are its pieces between newlines, numbered in order without gaps from one. Splitting
into lines and putting lines together undo each other, between all texts on one side and all lists with
at least one text and no newline in any of them on the other. So nothing of a text is lost in its lines,
not an empty line, a newline at the end or a carriage return.
-/

namespace BulkEdit

namespace Line

theorem map_text_numberFrom (start : Nat) (texts : List Text) :
    (numberFrom start texts).map Line.text = texts := by
  induction texts generalizing start with
  | nil => rfl
  | cons text rest ih => rw [numberFrom, List.map_cons, ih]

theorem map_number_numberFrom (start : Nat) (texts : List Text) :
    (numberFrom start texts).map Line.number = List.range' start texts.length := by
  induction texts generalizing start with
  | nil => rfl
  | cons text rest ih => rw [numberFrom, List.map_cons, ih, List.length_cons, List.range'_succ]

theorem le_number_of_mem {start : Nat} {texts : List Text} {line : Line}
    (h : line ∈ numberFrom start texts) : start ≤ line.number := by
  have hm : line.number ∈ (numberFrom start texts).map Line.number := List.mem_map_of_mem h
  rw [map_number_numberFrom, List.mem_range'_1] at hm
  exact hm.1

theorem pairwise_numberFrom (start : Nat) (texts : List Text) :
    (numberFrom start texts).Pairwise fun a b => a.number < b.number := by
  rw [← List.pairwise_map (f := Line.number) (R := (· < ·)), map_number_numberFrom]
  exact List.pairwise_lt_range'

end Line

namespace Text

theorem not_mem_of_mem_pieces {separator : Char} {t piece : Text} (h : piece ∈ pieces separator t) :
    separator ∉ piece := by
  induction t generalizing piece with
  | nil =>
    obtain rfl := List.mem_singleton.mp h
    exact List.not_mem_nil
  | cons c rest ih =>
    by_cases hc : c = separator
    · rw [pieces, if_pos hc] at h
      rcases List.mem_cons.mp h with rfl | h
      · exact List.not_mem_nil
      · exact ih h
    · obtain ⟨first, others, hp, hcons⟩ := exists_pieces_cons hc rest
      rw [hp] at ih
      rw [hcons] at h
      rcases List.mem_cons.mp h with rfl | h
      · have hfirst := ih List.mem_cons_self
        exact fun hm => (List.mem_cons.mp hm).elim (fun he => hc he.symm) hfirst
      · exact ih (List.mem_cons_of_mem first h)

theorem pieces_of_not_mem {separator : Char} {t : Text} (h : separator ∉ t) :
    pieces separator t = [t] := by
  induction t with
  | nil => rfl
  | cons c rest ih =>
    have hc : c ≠ separator := fun he => h (he ▸ List.mem_cons_self)
    rw [pieces, if_neg hc, ih fun hm => h (List.mem_cons_of_mem c hm)]

theorem pieces_append_separator {separator : Char} {t : Text} (h : separator ∉ t) (rest : Text) :
    pieces separator (t ++ separator :: rest) = t :: pieces separator rest := by
  induction t with
  | nil => rw [List.nil_append, pieces, if_pos rfl]
  | cons c t ih =>
    have hc : c ≠ separator := fun he => h (he ▸ List.mem_cons_self)
    rw [List.cons_append, pieces, if_neg hc, ih fun hm => h (List.mem_cons_of_mem c hm)]

/-- Texts without separators are the pieces of what they are put together to. -/
theorem pieces_joinWith {separator : Char} {texts : List Text} (hne : texts ≠ [])
    (h : ∀ text ∈ texts, separator ∉ text) : pieces separator (joinWith [separator] texts) = texts := by
  induction texts with
  | nil => exact absurd rfl hne
  | cons text rest ih =>
    obtain ⟨htext, hrest⟩ := List.forall_mem_cons.mp h
    cases rest with
    | nil => exact pieces_of_not_mem htext
    | cons next more =>
      rw [joinWith, List.append_assoc, List.singleton_append, pieces_append_separator htext,
        ih (List.cons_ne_nil next more) hrest]
      exact List.cons_ne_nil next more

theorem length_pieces (separator : Char) (t : Text) :
    (pieces separator t).length = t.count separator + 1 := by
  induction t with
  | nil => rfl
  | cons c rest ih =>
    by_cases hc : c = separator
    · rw [pieces, if_pos hc, List.length_cons, ih, hc, List.count_cons_self]
    · obtain ⟨first, others, hp, hcons⟩ := exists_pieces_cons hc rest
      rw [hp] at ih
      rw [hcons, List.count_cons_of_ne hc, ← ih, List.length_cons, List.length_cons]

theorem mem_joinWith {separator : Text} {c : Char} {texts : List Text}
    (h : c ∈ joinWith separator texts) : c ∈ separator ∨ ∃ text ∈ texts, c ∈ text := by
  induction texts with
  | nil => cases h
  | cons text rest ih =>
    cases rest with
    | nil => exact .inr ⟨text, List.mem_cons_self, h⟩
    | cons next more =>
      rw [joinWith, List.mem_append, List.mem_append] at h
      · rcases h with (h | h) | h
        · exact .inr ⟨text, List.mem_cons_self, h⟩
        · exact .inl h
        · rcases ih h with hc | ⟨other, ho, hc⟩
          · exact .inl hc
          · exact .inr ⟨other, List.mem_cons_of_mem text ho, hc⟩
      · exact List.cons_ne_nil next more

theorem map_text_lines (t : Text) : t.lines.map Line.text = t.pieces '\n' :=
  Line.map_text_numberFrom 1 (t.pieces '\n')

theorem map_text_lines_ne_nil (t : Text) : t.lines.map Line.text ≠ [] := by
  rw [map_text_lines]
  exact pieces_ne_nil '\n' t

theorem newline_not_mem_of_mem_lines {t : Text} {line : Line} (h : line ∈ t.lines) :
    '\n' ∉ line.text := by
  have hm : line.text ∈ t.lines.map Line.text := List.mem_map_of_mem h
  rw [map_text_lines] at hm
  exact not_mem_of_mem_pieces hm

theorem unlines_lines (t : Text) : unlines (t.lines.map Line.text) = t := by
  rw [map_text_lines]
  exact joinWith_pieces '\n' t

/-- Every newline ends a line, and one more line is not ended by any. -/
theorem length_lines (t : Text) : t.lines.length = t.count '\n' + 1 := by
  rw [← List.length_map Line.text, map_text_lines, length_pieces]

/-- A line parts the lines into those with smaller numbers and those with larger ones. -/
theorem lines_split {t : Text} {line : Line} (h : line ∈ t.lines) :
    ∃ before after, t.lines = before ++ line :: after ∧
      (∀ other ∈ before, 1 ≤ other.number ∧ other.number < line.number) ∧
      ∀ other ∈ after, line.number < other.number := by
  obtain ⟨before, after, hl⟩ := List.append_of_mem h
  have hp := Line.pairwise_numberFrom 1 (t.pieces '\n')
  change t.lines.Pairwise _ at hp
  rw [hl, List.pairwise_append, List.pairwise_cons] at hp
  obtain ⟨-, ⟨hafter, -⟩, hbefore⟩ := hp
  refine ⟨before, after, hl, fun other ho => ⟨?_, hbefore other ho line List.mem_cons_self⟩, hafter⟩
  have ht : other ∈ t.lines := hl ▸ List.mem_append_left _ ho
  exact Line.le_number_of_mem ht

/-- A text is split into at least one line, one more than it has newlines, numbered without gaps, and
putting them together gives it back. What lines are put together to is split into these lines again. -/
theorem lines_and_unlines_inverse :
    (∀ t : Text, t.lines ≠ [] ∧ (∀ line ∈ t.lines, '\n' ∉ line.text) ∧
      t.lines.length = t.count '\n' + 1 ∧
      t.lines.map Line.number = List.range' 1 t.lines.length ∧
      unlines (t.lines.map Line.text) = t) ∧
    ∀ texts : List Text, texts ≠ [] → (∀ text ∈ texts, '\n' ∉ text) →
      (unlines texts).lines.map Line.text = texts := by
  constructor
  · intro t
    have hne : t.lines ≠ [] := mt (congrArg (List.map Line.text)) (map_text_lines_ne_nil t)
    have hnumbers : t.lines.map Line.number = List.range' 1 t.lines.length := by
      rw [← List.length_map Line.text, map_text_lines]
      exact Line.map_number_numberFrom 1 (t.pieces '\n')
    exact ⟨hne, fun line hl => newline_not_mem_of_mem_lines hl, length_lines t, hnumbers,
      unlines_lines t⟩
  · intro texts hne hnewline
    rw [map_text_lines]
    exact pieces_joinWith hne hnewline

/-- A carriage return in front of a newline, an empty line among the others and an empty one at the
end. -/
theorem lines_inverse_of_newline_at_end :
    let texts : List Text := [['a', '\r'], [], ['b'], []]
    texts ≠ [] ∧ (∀ text ∈ texts, '\n' ∉ text) ∧
    unlines texts = ['a', '\r', '\n', '\n', 'b', '\n'] ∧
    (unlines texts).lines.map Line.text = texts := by
  intro texts
  have hne : texts ≠ [] := by decide
  have hnewline : ∀ text ∈ texts, '\n' ∉ text := by decide
  exact ⟨hne, hnewline, by decide, lines_and_unlines_inverse.2 texts hne hnewline⟩

end Text

end BulkEdit
