/-!
# Texts

A text is a list of characters. Everything the library edits, matches or reports on is a text, so
that its laws are laws of lists.
-/

namespace BulkEdit

abbrev Text := List Char

namespace Text

/-- Whether `s` stands somewhere in `t`. The empty text stands in every text. -/
def has (t s : Text) : Bool :=
  match t with
  | [] => s.isEmpty
  | c :: rest => s.isPrefixOf (c :: rest) || has rest s

/-- The part of `t` before the first `s`, and the part after it. -/
def splitAtFirst (s : Text) : Text → Option (Text × Text)
  | [] => if s.isEmpty then some ([], []) else none
  | c :: rest =>
    if s.isPrefixOf (c :: rest) then some ([], (c :: rest).drop s.length)
    else (splitAtFirst s rest).map fun (before, after) => (c :: before, after)

/-- The pieces between the separators, in order. A text without a separator is one piece. -/
def pieces (separator : Char) : Text → List Text
  | [] => [[]]
  | c :: rest =>
    if c = separator then [] :: pieces separator rest
    else
      match pieces separator rest with
      | [] => [[c]]
      | piece :: others => (c :: piece) :: others

/-- The pieces put together again, with a separator between each two. -/
def joinWith (separator : Text) : List Text → Text
  | [] => []
  | [piece] => piece
  | piece :: others => piece ++ separator ++ joinWith separator others

theorem has_iff_isInfix {t s : Text} : t.has s = true ↔ s <:+: t := by
  induction t with
  | nil => simp [has, List.infix_nil]
  | cons c rest ih =>
    rw [has, Bool.or_eq_true, ih, List.isPrefixOf_iff_prefix, List.infix_cons_iff]

theorem pieces_ne_nil (separator : Char) (t : Text) : pieces separator t ≠ [] := by
  cases t with
  | nil => simp [pieces]
  | cons c rest =>
    rw [pieces]
    split
    · simp
    · split <;> simp

/-- A character that is no separator goes to the first piece. -/
theorem exists_pieces_cons {separator c : Char} (hc : c ≠ separator) (t : Text) :
    ∃ first others, pieces separator t = first :: others ∧
      pieces separator (c :: t) = (c :: first) :: others := by
  obtain ⟨first, others, hp⟩ := List.exists_cons_of_ne_nil (pieces_ne_nil separator t)
  exact ⟨first, others, hp, by rw [pieces, if_neg hc, hp]⟩

theorem joinWith_pieces (separator : Char) (t : Text) :
    joinWith [separator] (pieces separator t) = t := by
  induction t with
  | nil => rfl
  | cons c rest ih =>
    by_cases hc : c = separator
    · obtain ⟨piece, others, hp⟩ := List.exists_cons_of_ne_nil (pieces_ne_nil separator rest)
      rw [hp] at ih
      rw [pieces, if_pos hc, hp, joinWith, ih, hc]
      · rfl
      · exact List.cons_ne_nil piece others
    · obtain ⟨first, others, hp, hcons⟩ := exists_pieces_cons hc rest
      rw [hp] at ih
      rw [hcons, ← ih]
      cases others <;> rfl

theorem eq_of_splitAtFirst {s t before after : Text}
    (h : splitAtFirst s t = some (before, after)) : t = before ++ s ++ after := by
  induction t generalizing before after with
  | nil =>
    rw [splitAtFirst] at h
    split at h
    next hs =>
      obtain ⟨rfl, rfl⟩ := Prod.mk.inj (Option.some.inj h)
      simpa using hs
    next => cases h
  | cons c rest ih =>
    rw [splitAtFirst] at h
    split at h
    next hs =>
      obtain ⟨rfl, rfl⟩ := Prod.mk.inj (Option.some.inj h)
      obtain ⟨tail, ht⟩ := List.isPrefixOf_iff_prefix.mp hs
      rw [← ht]; simp
    next =>
      obtain ⟨⟨b, a⟩, hb, he⟩ := Option.map_eq_some_iff.mp h
      obtain ⟨rfl, rfl⟩ := Prod.mk.inj he
      simp [ih hb]

theorem splitAtFirst_isSome (s t : Text) : (splitAtFirst s t).isSome = t.has s := by
  induction t with
  | nil => rw [splitAtFirst, has]; split <;> simp_all
  | cons c rest ih => rw [splitAtFirst, has]; split <;> simp_all

end Text

end BulkEdit
