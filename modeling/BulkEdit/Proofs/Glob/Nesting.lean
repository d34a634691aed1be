import BulkEdit.Proofs.Glob.Selecting

/-!
# Globs in many braces

A letter in braces is read and accepts the letter, in however many pairs of braces it stands. A set with it
can only be built up to a depth.
-/

namespace BulkEdit

namespace Glob

/-- The letter in `depth` pairs of braces. -/
def nestedText (depth : Nat) : Text :=
  List.replicate depth '\x7b' ++ 'a' :: List.replicate depth '\x7d'

/-- What `nestedText` spells. -/
def nested : Nat → Part
  | 0 => .literal 'a'
  | depth + 1 => .choice [[nested depth]]

theorem readFrom_opening (depth : Nat) (previous : Option Char) (groups : List OpenGroup) (rest : Text) :
    readFrom .parts previous ⟨[], groups⟩ (List.replicate depth '\x7b' ++ 'a' :: rest) =
      readFrom .parts (some 'a') ⟨[nested 0], List.replicate depth ⟨[], []⟩ ++ groups⟩ rest := by
  induction depth generalizing previous groups with
  | zero => rfl
  | succ depth ih =>
    rw [List.replicate_succ, List.cons_append, readFrom, Draft.openBranch, ih,
      List.replicate_succ', List.append_assoc]
    rfl

theorem saysNothing_nested (depth : Nat) : saysNothing [nested depth] = false := by
  cases depth <;> rfl

/-- Each closing brace puts one more choice around what has been read. -/
theorem readFrom_closing (depth inner : Nat) (previous : Option Char) :
    readFrom .parts previous ⟨[nested inner], List.replicate depth ⟨[], []⟩⟩
      (List.replicate depth '\x7d') = .ok ⟨[nested (inner + depth)], []⟩ := by
  induction depth generalizing inner previous with
  | zero => rfl
  | succ depth ih =>
    have hclose : (Draft.mk [nested inner] (List.replicate (depth + 1) ⟨[], []⟩)).closeGroup =
        .ok ⟨[nested (inner + 1)], List.replicate depth ⟨[], []⟩⟩ := by
      simp [List.replicate_succ, Draft.closeGroup, saysNothing_nested, nested]
    rw [List.replicate_succ (a := '\x7d'), readFrom, hclose]
    dsimp only
    rw [ih, Nat.add_right_comm, Nat.add_assoc]

theorem read_nested (depth : Nat) : read (nestedText depth) = .ok ⟨[nested depth]⟩ := by
  have hopen := readFrom_opening depth none [] (List.replicate depth '\x7d')
  rw [List.append_nil, readFrom_closing, Nat.zero_add] at hopen
  rw [read, nestedText, Draft.empty, hopen]
  rfl

theorem rests_nested (depth : Nat) : (nested depth).rests [Text.utf8 ['a']] = [[]] := by
  induction depth with
  | zero => rfl
  | succ depth ih =>
    simp [nested, Part.rests, choiceRests, sequenceRests, ih, union, distinct]

theorem accepts_nested (depth : Nat) : accepts ⟨[nested depth]⟩ ['a'] = true := by
  have hname : asksForName ⟨[nested depth]⟩ = false := by
    cases depth <;> rfl
  have hrests : matchesBytes ⟨[nested depth]⟩ (Text.utf8 ['a']) =
      (sequenceRests [nested depth] [Text.utf8 ['a']]).any List.isEmpty := by
    cases depth <;> rfl
  rw [accepts, hname, hrests, sequenceRests, rests_nested]
  rfl

theorem nesting_nested (depth : Nat) : (nested depth).nesting = depth := by
  induction depth with
  | zero => rfl
  | succ depth ih =>
    have hrow : rowNesting [nested depth] = 0 := by
      cases depth <;> rfl
    rw [nested, Part.nesting, hrow, deepestPart, deepestPart, ih]
    omega

/-- A set cannot be built of a glob in too many braces. -/
theorem build_nested {depth : Nat} (h : nestingLimit ≤ depth) :
    build [⟨[nested depth]⟩] = .error "error parsing pattern 0".toList := by
  have hdeep : isTooDeep ⟨[nested depth]⟩ = true := by
    rw [isTooDeep, deepestPart, deepestPart, nesting_nested]
    exact decide_eq_true (by omega)
  have hlimit : 0 < nestingLimit := by decide
  obtain ⟨inner, rfl⟩ : ∃ inner, depth = inner + 1 := ⟨depth - 1, by omega⟩
  have hplain : isPlain ⟨[nested (inner + 1)]⟩ = false := rfl
  have hextension : endsInExtension ⟨[nested (inner + 1)]⟩ = false := rfl
  simp [build, hplain, hextension, hdeep]

end Glob

namespace Pattern

open Glob (nested nestedText)

theorem ofText_nestedText (depth : Nat) : ofText (nestedText depth) = ⟨false, nestedText depth⟩ := by
  cases depth <;> rfl

theorem glob?_nestedText (depth : Nat) :
    glob? ⟨false, nestedText depth⟩ .standard = some ⟨[nested depth]⟩ := by
  refine glob?_eq_some_iff.mpr ⟨?_, Glob.read_nested depth⟩
  cases depth <;> exact List.cons_ne_nil _ _

theorem usable_nestedText (depth : Nat) : Usable .standard [⟨false, nestedText depth⟩] := by
  obtain ⟨hne, hread⟩ := glob?_eq_some_iff.mp (glob?_nestedText depth)
  exact ⟨List.forall_mem_singleton.mpr (.inr ⟨_, hread⟩), _, List.mem_singleton_self _, rfl, hne⟩

theorem selects_nestedText (depth : Nat) :
    Selects .standard [⟨false, nestedText depth⟩] ['a'] := by
  obtain ⟨hne, hread⟩ := glob?_eq_some_iff.mp (glob?_nestedText depth)
  exact ⟨⟨_, List.mem_singleton_self _, rfl, hne, _, hread, Glob.accepts_nested depth⟩,
    List.forall_mem_singleton.mpr fun h => nomatch h⟩

theorem refused_nestedText {depth : Nat} (h : Glob.nestingLimit ≤ depth) :
    Refused .standard [⟨false, nestedText depth⟩] (.badSet "error parsing pattern 0".toList) := by
  have hglobs : globs .standard false [⟨false, nestedText depth⟩] = [⟨[nested depth]⟩] :=
    List.filterMap_cons_some (glob?_nestedText depth)
  exact .badIncludes (usable_nestedText depth) (hglobs ▸ Glob.build_nested h)

end Pattern

end BulkEdit
