import BulkEdit.Proofs.Glob.Nesting
import BulkEdit.Proofs.Glob.Selecting
import BulkEdit.Proofs.Session.Opening

/-!
# Lists of patterns as sets

What files in memory are found and what session is opened depends on the set of the patterns alone: on neither
their order nor how often one is listed, nor on dots in front of one. Excluding always wins. Whether the sets of
globs can be built at all is another matter: they are built of the globs in their order, with each as often as
it is listed.
-/

namespace BulkEdit

/-- A result with these patterns in place of those that its failure shows. -/
def showing {σ α : Type} (patterns : List Text) :
    EStateM.Result Failure σ α → EStateM.Result Failure σ α
  | .error (.noFilesFound _ reason) later => .error (.noFilesFound patterns reason) later
  | result => result

/-- The text of a pattern with a dot and a slash put in front of what is not the exclamation mark. -/
def Pattern.dotted : Text → Text
  | '!' :: rest => '!' :: '.' :: '/' :: rest
  | text => '.' :: '/' :: text

theorem Pattern.ofText_dotted (text : Text) : ofText (dotted text) = ofText text := by
  rw [dotted.eq_def]
  split
  next rest => rfl
  next hmark =>
    rw [ofText.eq_def text]
    split
    next rest => exact absurd rfl (hmark rest)
    next => rfl

open MemoryStore (access accessBy)

section Interchange

variable {γ : Type} {globbing : Globbing γ} {patterns others : List Text} {store : MemoryStore}
  {selection other : Selection}

namespace MemoryStore

theorem find_of_ok (h : Selection.ofPatternsBy globbing patterns = .ok selection) :
    (accessBy globbing).find patterns store = .ok (store.matching selection) store := by
  rw [find_accessBy, h]

theorem ordered_matching (store : MemoryStore) (selection : Selection) :
    Path.Ordered (store.matching selection) := store.ordered.sublist List.filter_sublist

theorem mem_matching_iff {path : Path} : path ∈ store.matching selection ↔
    path ∈ store.files.map Prod.fst ∧ selection.selects path.spelling = true := List.mem_filter

/-- More is selected by what selects more. -/
theorem matching_sublist (h : ∀ path, selection.selects path = true → other.selects path = true) :
    (store.matching selection).Sublist (store.matching other) :=
  List.monotone_filter_right _ fun path => h path.spelling

theorem matching_congr (h : ∀ path, selection.selects path = true ↔ other.selects path = true) :
    store.matching selection = store.matching other :=
  List.filter_congr fun path _ => Bool.eq_iff_iff.mpr (h path.spelling)

end MemoryStore

namespace Session

/-- That a list of patterns can stand in for another: the same files are found and the same session is
opened, or both fail for the same reason, each showing its own patterns. -/
structure Interchangeable (globbing : Globbing γ) (store : MemoryStore) (patterns others : List Text) :
    Prop where
  find : (accessBy globbing).find others store =
    showing others ((accessBy globbing).find patterns store)
  session : ofPatterns (accessBy globbing) others store =
    showing others (ofPatterns (accessBy globbing) patterns store)

theorem interchangeable_of_refused {reason : NoFilesReason}
    (h : Selection.ofPatternsBy globbing patterns = .error reason)
    (hothers : Selection.ofPatternsBy globbing others = .error reason) :
    Interchangeable globbing store patterns others where
  find := by
    rw [MemoryStore.find_accessBy, MemoryStore.find_accessBy, h, hothers]
    rfl
  session := by
    rw [ofPatterns_accessBy, ofPatterns_accessBy, h, hothers]
    rfl

theorem interchangeable_of_selects (h : Selection.ofPatternsBy globbing patterns = .ok selection)
    (hothers : Selection.ofPatternsBy globbing others = .ok other)
    (hselects : ∀ path, selection.selects path = true ↔ other.selects path = true) :
    Interchangeable globbing store patterns others where
  find := by
    rw [MemoryStore.find_of_ok h, MemoryStore.find_of_ok hothers, MemoryStore.matching_congr hselects]
    rfl
  session := by
    rw [ofPatterns_accessBy, ofPatterns_accessBy, h, hothers]
    dsimp only
    rw [MemoryStore.matching_congr hselects]
    split <;> rfl

/-- Patterns that are the same when stripped can stand in for each other, also where some cannot be read. -/
theorem interchangeable_of_map_eq (h : others.map Pattern.ofText = patterns.map Pattern.ofText) :
    Interchangeable globbing store patterns others := by
  have hsame : Selection.ofPatternsBy globbing others = Selection.ofPatternsBy globbing patterns := by
    rw [Selection.ofPatternsBy, Selection.ofPatternsBy, h]
  cases hselection : Selection.ofPatternsBy globbing patterns with
  | error reason => exact interchangeable_of_refused hselection (hsame.trans hselection)
  | ok selection =>
    exact interchangeable_of_selects hselection (hsame.trans hselection) fun _ => Iff.rfl

theorem interchangeable_of_mem_iff
    (hmem : ∀ pattern, pattern ∈ others.map Pattern.ofText ↔ pattern ∈ patterns.map Pattern.ofText)
    (hreadable : ∀ pattern ∈ patterns.map Pattern.ofText, pattern.Readable globbing)
    (hbuildable : Pattern.Buildable globbing (patterns.map Pattern.ofText))
    (hothers : Pattern.Buildable globbing (others.map Pattern.ofText)) :
    Interchangeable globbing store patterns others := by
  rcases Pattern.noInclude_or_usable hreadable with hnone | husable
  · refine interchangeable_of_refused (Selection.ofPatternsBy_of_nothing hreadable hnone)
      (Selection.ofPatternsBy_of_nothing ?_ ?_)
    · exact fun pattern hp => hreadable pattern ((hmem pattern).mp hp)
    · exact fun pattern hp => hnone pattern ((hmem pattern).mp hp)
  · obtain ⟨selection, hselection, hselects⟩ :=
      Selection.ofPatternsBy_of_usable husable hbuildable
    obtain ⟨other, hother, hselectsOther⟩ :=
      Selection.ofPatternsBy_of_usable (husable.congr hmem) hothers
    refine interchangeable_of_selects hselection hother fun path => ?_
    rw [hselects, hselectsOther, Pattern.Selects.congr hmem]

/-- What is found when a pattern is added that can be read, with sets that can still be built: an excluding
one only takes files away, and an including one only adds some. -/
theorem find_adding {before after : List Text} {extra : Text} {files : List Path}
    (hfind : (accessBy globbing).find (before ++ after) store = .ok files store)
    (hextra : (Pattern.ofText extra).Readable globbing)
    (hbuildable : Pattern.Buildable globbing ((before ++ extra :: after).map Pattern.ofText)) :
    ∃ found, (accessBy globbing).find (before ++ extra :: after) store = .ok found store ∧
      ((Pattern.ofText extra).excludes = true → found.Sublist files) ∧
      ((Pattern.ofText extra).excludes = false → files.Sublist found) := by
  have hmem : ∀ pattern, pattern ∈ (before ++ extra :: after).map Pattern.ofText ↔
      pattern = Pattern.ofText extra ∨ pattern ∈ (before ++ after).map Pattern.ofText := by
    intro pattern
    simp only [List.map_append, List.map_cons, List.mem_append, List.mem_cons, or_left_comm]
  cases hselection : Selection.ofPatternsBy globbing (before ++ after) with
  | error reason =>
    rw [MemoryStore.find_accessBy, hselection] at hfind
    cases hfind
  | ok selection =>
    have hselects := Selection.selects_of_ofPatternsBy hselection
    cases (MemoryStore.find_of_ok hselection).symm.trans hfind
    obtain ⟨husable, -⟩ := Selection.usable_of_ofPatternsBy hselection
    obtain ⟨other, hother, hselectsOther⟩ :=
      Selection.ofPatternsBy_of_usable (husable.adding hmem hextra) hbuildable
    refine ⟨_, MemoryStore.find_of_ok hother, fun hexcludes => ?_, fun hincludes => ?_⟩
    · exact MemoryStore.matching_sublist fun path h =>
        (hselects path).mpr (((hselectsOther path).mp h).of_adding_exclude hmem hexcludes)
    · exact MemoryStore.matching_sublist fun path h =>
        (hselectsOther path).mpr (((hselects path).mp h).adding_include hmem hincludes)

end Session

end Interchange

namespace Session

/-- Patterns act as a set, however a glob is read and matched. They are refused if some pattern cannot be
read, where the first such is shown, if none includes anything, or if the set of the including or else of the
excluding globs cannot be built. Otherwise they find, in order, the stored paths that some including pattern
accepts and no excluding one does, and a session is opened on just these unless there are none. What is
found stays the same when patterns get dots put in front and, as long as the sets can be built, when they
change places or are repeated. It shrinks at most when an excluding pattern is added and grows at most when an
including one is. -/
theorem patterns_act_as_sets {γ : Type} (globbing : Globbing γ) (patterns : List Text)
    (store : MemoryStore) :
    (∀ text pattern, Pattern.ofText text = pattern ↔ pattern.Strips text) ∧
    (∀ reason, Selection.ofPatternsBy globbing patterns = .error reason ↔
      Pattern.Refused globbing (patterns.map Pattern.ofText) reason) ∧
    (∀ reason, Selection.ofPatternsBy globbing patterns = .error reason →
      (accessBy globbing).find patterns store = .error (.noFilesFound patterns reason) store ∧
      ofPatterns (accessBy globbing) patterns store = .error (.noFilesFound patterns reason) store) ∧
    (∀ selection, Selection.ofPatternsBy globbing patterns = .ok selection →
      ∃ files, (accessBy globbing).find patterns store = .ok files store ∧ Path.Ordered files ∧
        (∀ path, path ∈ files ↔ path ∈ store.files.map Prod.fst ∧
          Pattern.Selects globbing (patterns.map Pattern.ofText) path.spelling) ∧
        ofPatterns (accessBy globbing) patterns store =
          if files = [] then .error (.noFilesFound patterns .matchedNothing) store
          else .ok ⟨files, .empty⟩ store) ∧
    (∀ others,
      (∀ pattern, pattern ∈ others.map Pattern.ofText ↔ pattern ∈ patterns.map Pattern.ofText) →
      (∀ pattern ∈ patterns.map Pattern.ofText, pattern.Readable globbing) →
      Pattern.Buildable globbing (patterns.map Pattern.ofText) →
      Pattern.Buildable globbing (others.map Pattern.ofText) →
      Interchangeable globbing store patterns others) ∧
    ∀ before after, patterns = before ++ after →
      (∀ text rest, after = text :: rest →
        Interchangeable globbing store patterns (before ++ Pattern.dotted text :: rest)) ∧
      ∀ extra files, (accessBy globbing).find patterns store = .ok files store →
        (Pattern.ofText extra).Readable globbing →
        Pattern.Buildable globbing ((before ++ extra :: after).map Pattern.ofText) →
        ∃ found, (accessBy globbing).find (before ++ extra :: after) store = .ok found store ∧
          ((Pattern.ofText extra).excludes = true → found.Sublist files) ∧
          ((Pattern.ofText extra).excludes = false → files.Sublist found) := by
  refine ⟨fun _ _ => Pattern.ofText_eq_iff, fun _ => Selection.ofPatternsBy_eq_error_iff,
    fun reason h => ?_, fun selection h => ?_, fun _ => interchangeable_of_mem_iff, ?_⟩
  · rw [MemoryStore.find_accessBy, ofPatterns_accessBy, h]
    exact ⟨rfl, rfl⟩
  · refine ⟨_, MemoryStore.find_of_ok h, MemoryStore.ordered_matching store selection, fun path => ?_, ?_⟩
    · rw [MemoryStore.mem_matching_iff, Selection.selects_of_ofPatternsBy h]
    · rw [ofPatterns_accessBy, h]
  · rintro before after rfl
    refine ⟨?_, fun extra files => find_adding⟩
    rintro text rest rfl
    refine interchangeable_of_map_eq ?_
    simp only [List.map_append, List.map_cons, Pattern.ofText_dotted]

/-- A list with the exclusion in front, the same set in another order and spelled without dots, and a list
with one more including pattern. -/
theorem sets_of_dotted_patterns :
    let a : Path := ⟨['a']⟩
    let store := ((MemoryStore.empty.set a []).set ⟨['b']⟩ []).set ⟨"d/c".toList⟩ []
    let patterns : List Text := ["!./b".toList, "././*".toList]
    let others : List Text := [['*'], ['!', 'b'], ['*']]
    access.find patterns store = .ok [a] store ∧ access.find others store = .ok [a] store ∧
    ofPatterns access others store = .ok ⟨[a], .empty⟩ store ∧
    ∃ found, access.find ("!./b".toList :: "**/c".toList :: ["././*".toList]) store = .ok found store ∧
      [a].Sublist found := by
  intro a store patterns others
  have hpatterns : patterns.map Pattern.ofText = [⟨true, ['b']⟩, ⟨false, ['*']⟩] := by decide
  have hothers : others.map Pattern.ofText = [⟨false, ['*']⟩, ⟨true, ['b']⟩, ⟨false, ['*']⟩] := by decide
  have hmem : ∀ pattern, pattern ∈ others.map Pattern.ofText ↔ pattern ∈ patterns.map Pattern.ofText := by
    intro pattern
    rw [hpatterns, hothers]
    simp only [List.mem_cons, List.not_mem_nil, or_false]
    exact ⟨fun h => h.elim .inr fun h => h, fun h => h.elim (fun h => .inr (.inl h)) .inl⟩
  have hreadable : ∀ pattern ∈ patterns.map Pattern.ofText, pattern.Readable .standard := by
    rw [hpatterns]
    exact List.forall_mem_cons.mpr ⟨.inr ⟨_, rfl⟩, List.forall_mem_singleton.mpr (.inr ⟨_, rfl⟩)⟩
  have hfind : access.find patterns store = .ok [a] store := rfl
  have hopen : ofPatterns access patterns store = .ok ⟨[a], .empty⟩ store := rfl
  obtain ⟨-, -, -, -, hset, hadd⟩ := patterns_act_as_sets .standard patterns store
  obtain ⟨hsame, hsession⟩ := hset others hmem hreadable (Selection.usable_of_ofPatternsBy rfl).2
    (Selection.usable_of_ofPatternsBy rfl).2
  obtain ⟨-, hlonger⟩ := hadd ["!./b".toList] ["././*".toList] rfl
  obtain ⟨found, hfound, -, hmore⟩ := hlonger "**/c".toList [a] hfind (.inr ⟨_, rfl⟩)
    (Selection.usable_of_ofPatternsBy rfl).2
  change access.find others store = showing others (access.find patterns store) at hsame
  change ofPatterns access others store = showing others (ofPatterns access patterns store) at hsession
  rw [hfind] at hsame
  rw [hopen] at hsession
  exact ⟨hfind, hsame, hsession, found, hfound, hmore rfl⟩

/-- An including pattern that can be read and accepts a stored path is refused nevertheless where it is nested
too deeply for a set. -/
theorem deep_pattern_refused :
    let deep := Glob.nestedText 300
    let store := MemoryStore.empty.set ⟨['a']⟩ ['x']
    let reason := NoFilesReason.badSet "error parsing pattern 0".toList
    Pattern.Usable .standard ([deep].map Pattern.ofText) ∧
    Pattern.Selects .standard ([deep].map Pattern.ofText) ['a'] ∧
    access.find [deep] store = .error (.noFilesFound [deep] reason) store ∧
    ofPatterns access [deep] store = .error (.noFilesFound [deep] reason) store := by
  intro deep store reason
  have hstrip : [deep].map Pattern.ofText = [⟨false, deep⟩] :=
    congrArg ([·]) (Pattern.ofText_nestedText 300)
  have hrefused : Selection.ofPatterns [deep] = .error reason :=
    Selection.ofPatternsBy_of_refused (hstrip ▸ Pattern.refused_nestedText (by decide))
  rw [hstrip, MemoryStore.find_eq, ofPatterns_eq, hrefused]
  exact ⟨Pattern.usable_nestedText 300, Pattern.selects_nestedText 300, rfl, rfl⟩

end Session

end BulkEdit
