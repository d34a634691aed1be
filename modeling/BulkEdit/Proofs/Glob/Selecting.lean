import BulkEdit.Glob.Selection

/-!
# What patterns select

What a list of patterns selects, and whether it is refused, is said without going through the list in order:
a path is selected if some including pattern accepts it and no excluding one does. The order shows only in
which of several patterns is reported that cannot be read, and in the sets that are built. Nothing is used of
globs but that a set of them accepts what one of them accepts.
-/

namespace BulkEdit

namespace Pattern

/-- That a pattern is what is left of a text without one exclamation mark and without all leading dots
that a slash follows. -/
structure Strips (pattern : Pattern) (text : Text) : Prop where
  spelled : ∃ dots : Nat, text = (if pattern.excludes then ['!'] else []) ++
    (List.replicate dots ['.', '/']).flatten ++ pattern.glob
  bare : ¬ ['.', '/'] <+: pattern.glob
  unmarked : pattern.excludes = false → text.head? ≠ some '!'

theorem dropLeadingDots_of_bare {text : Text} (h : ¬ ['.', '/'] <+: text) :
    dropLeadingDots text = text := by
  rw [dropLeadingDots.eq_def]
  split
  next rest => exact absurd (List.prefix_append ['.', '/'] rest) h
  next => rfl

theorem dropLeadingDots_replicate (dots : Nat) {glob : Text} (h : ¬ ['.', '/'] <+: glob) :
    dropLeadingDots ((List.replicate dots ['.', '/']).flatten ++ glob) = glob := by
  induction dots with
  | zero => exact dropLeadingDots_of_bare h
  | succ dots ih =>
    rw [List.replicate_succ, List.flatten_cons, List.append_assoc]
    exact ih

theorem dropLeadingDots_spec (text : Text) :
    ¬ ['.', '/'] <+: dropLeadingDots text ∧
      ∃ dots : Nat, text = (List.replicate dots ['.', '/']).flatten ++ dropLeadingDots text := by
  induction text using dropLeadingDots.induct with
  | case1 rest ih =>
    obtain ⟨hbare, dots, hdots⟩ := ih
    refine ⟨hbare, dots + 1, ?_⟩
    rw [List.replicate_succ, List.flatten_cons, List.append_assoc, dropLeadingDots, ← hdots]
    rfl
  | case2 text h =>
    have hbare : ¬ ['.', '/'] <+: text := by
      rintro ⟨rest, rfl⟩
      exact h rest rfl
    rw [dropLeadingDots_of_bare hbare]
    exact ⟨hbare, 0, rfl⟩

theorem strips_ofText (text : Text) : (ofText text).Strips text := by
  rw [ofText.eq_def]
  split
  next rest =>
    obtain ⟨hbare, dots, hdots⟩ := dropLeadingDots_spec rest
    refine ⟨⟨dots, ?_⟩, hbare, fun h => nomatch h⟩
    rw [if_pos rfl, List.append_assoc, ← hdots]
    rfl
  next hmark =>
    obtain ⟨hbare, dots, hdots⟩ := dropLeadingDots_spec text
    refine ⟨⟨dots, hdots⟩, hbare, fun _ hhead => ?_⟩
    obtain ⟨rest, rfl⟩ := List.head?_eq_some_iff.mp hhead
    exact hmark rest rfl

theorem ofText_eq_iff {text : Text} {pattern : Pattern} :
    ofText text = pattern ↔ pattern.Strips text := by
  refine ⟨fun h => h ▸ strips_ofText text, fun h => ?_⟩
  obtain ⟨excludes, glob⟩ := pattern
  obtain ⟨⟨dots, hspelled⟩, hbare, hunmarked⟩ := h
  cases excludes with
  | true =>
    rw [if_pos rfl, List.append_assoc] at hspelled
    rw [hspelled]
    exact congrArg (Pattern.mk true) (dropLeadingDots_replicate dots hbare)
  | false =>
    have hglob : dropLeadingDots text = glob := hspelled ▸ dropLeadingDots_replicate dots hbare
    rw [ofText.eq_def]
    split
    next rest => exact absurd rfl (hunmarked rfl)
    next => rw [hglob]

section Reading

variable {γ : Type}

/-- That a pattern says nothing or can be read. -/
def Readable (pattern : Pattern) (globbing : Globbing γ) : Prop :=
  pattern.glob = [] ∨ ∃ glob, globbing.read pattern.glob = .ok glob

def Accepts (pattern : Pattern) (globbing : Globbing γ) (path : Text) : Prop :=
  pattern.glob ≠ [] ∧ ∃ glob, globbing.read pattern.glob = .ok glob ∧ globbing.accepts glob path = true

def glob? (pattern : Pattern) (globbing : Globbing γ) : Option γ :=
  if pattern.glob = [] then none else (globbing.read pattern.glob).toOption

/-- The globs of the patterns that exclude, or of those that include, as far as they say something. -/
def globs (globbing : Globbing γ) (excludes : Bool) (patterns : List Pattern) : List γ :=
  (patterns.filter (·.excludes == excludes)).filterMap (·.glob? globbing)

/-- That a path is accepted by an including pattern and by no excluding one. -/
def Selects (globbing : Globbing γ) (patterns : List Pattern) (path : Text) : Prop :=
  (∃ pattern ∈ patterns, pattern.excludes = false ∧ pattern.Accepts globbing path) ∧
    ∀ pattern ∈ patterns, pattern.excludes = true → ¬ pattern.Accepts globbing path

/-- That all patterns can be read and some pattern includes something. -/
structure Usable (globbing : Globbing γ) (patterns : List Pattern) : Prop where
  readable : ∀ pattern ∈ patterns, pattern.Readable globbing
  includes : ∃ pattern ∈ patterns, pattern.excludes = false ∧ pattern.glob ≠ []

/-- Why a list of patterns is refused: some pattern cannot be read, the first of them being shown; or all can
be read and none includes anything; or one of the two sets of globs cannot be built, that of the including ones
being the first. -/
inductive Refused (globbing : Globbing γ) (patterns : List Pattern) : NoFilesReason → Prop where
  | badGlob {before after : List Pattern} {pattern : Pattern} {fault : Glob.Fault}
      (hsplit : patterns = before ++ pattern :: after)
      (hbefore : ∀ other ∈ before, other.Readable globbing)
      (hne : pattern.glob ≠ []) (hfault : globbing.read pattern.glob = .error fault) :
      Refused globbing patterns (.badGlob pattern.glob fault)
  | noInclude (hreadable : ∀ pattern ∈ patterns, pattern.Readable globbing)
      (hnone : ∀ pattern ∈ patterns, pattern.excludes = false → pattern.glob = []) :
      Refused globbing patterns .noInclude
  | badIncludes {message : Text} (husable : Usable globbing patterns)
      (hbuild : globbing.build (globs globbing false patterns) = .error message) :
      Refused globbing patterns (.badSet message)
  | badExcludes {included : Text → Bool} {message : Text} (husable : Usable globbing patterns)
      (hincluded : globbing.build (globs globbing false patterns) = .ok included)
      (hbuild : globbing.build (globs globbing true patterns) = .error message) :
      Refused globbing patterns (.badSet message)

/-- That the sets of globs, if it comes to them, can be built. -/
def Buildable (globbing : Globbing γ) (patterns : List Pattern) : Prop :=
  ∀ message, ¬ Refused globbing patterns (.badSet message)

variable {globbing : Globbing γ} {patterns others : List Pattern} {path : Text}

theorem glob?_eq_some_iff {pattern : Pattern} {glob : γ} :
    pattern.glob? globbing = some glob ↔
      pattern.glob ≠ [] ∧ globbing.read pattern.glob = .ok glob := by
  rw [glob?]
  split
  next h => simp [h]
  next h => cases globbing.read pattern.glob <;> simp [Except.toOption, h]

theorem Readable.glob?_eq_none_iff {pattern : Pattern} (h : pattern.Readable globbing) :
    pattern.glob? globbing = none ↔ pattern.glob = [] := by
  rw [glob?]
  split
  next hnil => simp [hnil]
  next hne =>
    obtain ⟨glob, hread⟩ := h.resolve_left hne
    simp [hread, hne, Except.toOption]

theorem mem_globs_iff {excludes : Bool} {glob : γ} :
    glob ∈ globs globbing excludes patterns ↔ ∃ pattern ∈ patterns,
      pattern.excludes = excludes ∧ pattern.glob? globbing = some glob := by
  simp only [globs, List.mem_filterMap, List.mem_filter, beq_iff_eq, and_assoc]

theorem any_globs (excludes : Bool) (patterns : List Pattern) (path : Text) :
    (globs globbing excludes patterns).any (globbing.accepts · path) = true ↔
      ∃ pattern ∈ patterns, pattern.excludes = excludes ∧ pattern.Accepts globbing path := by
  simp only [List.any_eq_true, mem_globs_iff, glob?_eq_some_iff]
  constructor
  · rintro ⟨glob, ⟨pattern, hp, hexcludes, hne, hread⟩, haccepts⟩
    exact ⟨pattern, hp, hexcludes, hne, glob, hread, haccepts⟩
  · rintro ⟨pattern, hp, hexcludes, hne, glob, hread, haccepts⟩
    exact ⟨glob, ⟨pattern, hp, hexcludes, hne, hread⟩, haccepts⟩

/-- There is a glob to include unless no including pattern says anything. -/
theorem globs_eq_nil_iff (h : ∀ pattern ∈ patterns, pattern.Readable globbing) (excludes : Bool) :
    globs globbing excludes patterns = [] ↔
      ∀ pattern ∈ patterns, pattern.excludes = excludes → pattern.glob = [] := by
  rw [globs, List.filterMap_eq_nil_iff]
  constructor
  · intro hnone pattern hp hexcludes
    exact (h pattern hp).glob?_eq_none_iff.mp
      (hnone pattern (List.mem_filter.mpr ⟨hp, beq_iff_eq.mpr hexcludes⟩))
  · intro hnone pattern hp
    obtain ⟨hp, hexcludes⟩ := List.mem_filter.mp hp
    exact (h pattern hp).glob?_eq_none_iff.mpr (hnone pattern hp (beq_iff_eq.mp hexcludes))

theorem readable_or_split (globbing : Globbing γ) (patterns : List Pattern) :
    (∀ pattern ∈ patterns, pattern.Readable globbing) ∨
      ∃ before pattern after fault, patterns = before ++ pattern :: after ∧
        (∀ other ∈ before, other.Readable globbing) ∧ pattern.glob ≠ [] ∧
        globbing.read pattern.glob = .error fault := by
  induction patterns with
  | nil => exact .inl fun _ h => absurd h List.not_mem_nil
  | cons first rest ih =>
    by_cases hfirst : first.Readable globbing
    · rcases ih with hrest | ⟨before, pattern, after, fault, rfl, hbefore, hne, hfault⟩
      · exact .inl (List.forall_mem_cons.mpr ⟨hfirst, hrest⟩)
      · exact .inr ⟨first :: before, pattern, after, fault, rfl,
          List.forall_mem_cons.mpr ⟨hfirst, hbefore⟩, hne, hfault⟩
    · obtain ⟨hne, hnot⟩ := not_or.mp hfirst
      cases hread : globbing.read first.glob with
      | ok glob => exact absurd ⟨glob, hread⟩ hnot
      | error fault =>
        exact .inr ⟨[], first, rest, fault, rfl, fun _ h => absurd h List.not_mem_nil, hne, hread⟩

/-- Patterns that can all be read include something or are refused for including nothing. -/
theorem noInclude_or_usable (hreadable : ∀ pattern ∈ patterns, pattern.Readable globbing) :
    (∀ pattern ∈ patterns, pattern.excludes = false → pattern.glob = []) ∨ Usable globbing patterns := by
  by_cases hincludes : ∃ pattern ∈ patterns, pattern.excludes = false ∧ pattern.glob ≠ []
  · exact .inr ⟨hreadable, hincludes⟩
  · refine .inl fun pattern hp hinclude => ?_
    exact Decidable.of_not_not fun hne => hincludes ⟨pattern, hp, hinclude, hne⟩

theorem refused_or_usable (globbing : Globbing γ) (patterns : List Pattern) :
    (∃ reason, Refused globbing patterns reason) ∨
      Usable globbing patterns ∧ Buildable globbing patterns := by
  rcases readable_or_split globbing patterns with
    hreadable | ⟨before, pattern, after, fault, hsplit, hbefore, hne, hfault⟩
  · rcases noInclude_or_usable hreadable with hnone | husable
    · exact .inl ⟨_, .noInclude hreadable hnone⟩
    · by_cases hbuildable : Buildable globbing patterns
      · exact .inr ⟨husable, hbuildable⟩
      · obtain ⟨message, hrefused⟩ := Classical.not_forall_not.mp hbuildable
        exact .inl ⟨_, hrefused⟩
  · exact .inl ⟨_, .badGlob hsplit hbefore hne hfault⟩

/-- Both sets are built for patterns that can be used. -/
theorem Buildable.exists_sets (h : Buildable globbing patterns) (husable : Usable globbing patterns) :
    ∃ included excluded, globbing.build (globs globbing false patterns) = .ok included ∧
      globbing.build (globs globbing true patterns) = .ok excluded := by
  cases hincluded : globbing.build (globs globbing false patterns) with
  | error message => exact absurd (.badIncludes husable hincluded) (h message)
  | ok included =>
    cases hexcluded : globbing.build (globs globbing true patterns) with
    | error message => exact absurd (.badExcludes husable hincluded hexcluded) (h message)
    | ok excluded => exact ⟨included, excluded, rfl, rfl⟩

theorem Usable.congr (h : Usable globbing patterns)
    (hmem : ∀ pattern, pattern ∈ others ↔ pattern ∈ patterns) : Usable globbing others := by
  obtain ⟨pattern, hp, hinclude⟩ := h.includes
  exact ⟨fun other ho => h.readable other ((hmem other).mp ho), pattern, (hmem pattern).mpr hp, hinclude⟩

theorem Selects.congr (hmem : ∀ pattern, pattern ∈ others ↔ pattern ∈ patterns) :
    Selects globbing others path ↔ Selects globbing patterns path := by
  simp only [Selects, hmem]

section Adding

variable {longer : List Pattern} {extra : Pattern}
  (hmem : ∀ pattern, pattern ∈ longer ↔ pattern = extra ∨ pattern ∈ patterns)

include hmem

theorem Usable.adding (h : Usable globbing patterns) (hextra : extra.Readable globbing) :
    Usable globbing longer := by
  obtain ⟨pattern, hp, hinclude⟩ := h.includes
  refine ⟨fun other ho => ?_, pattern, (hmem pattern).mpr (.inr hp), hinclude⟩
  rcases (hmem other).mp ho with rfl | ho
  · exact hextra
  · exact h.readable other ho

theorem Selects.of_adding_exclude (hextra : extra.excludes = true) (h : Selects globbing longer path) :
    Selects globbing patterns path := by
  obtain ⟨⟨pattern, hp, hinclude, haccepts⟩, hexcludes⟩ := h
  refine ⟨⟨pattern, ?_, hinclude, haccepts⟩, fun other ho => hexcludes other ((hmem other).mpr (.inr ho))⟩
  rcases (hmem pattern).mp hp with rfl | hp
  · cases hinclude.symm.trans hextra
  · exact hp

theorem Selects.adding_include (hextra : extra.excludes = false) (h : Selects globbing patterns path) :
    Selects globbing longer path := by
  obtain ⟨⟨pattern, hp, hinclude, haccepts⟩, hexcludes⟩ := h
  refine ⟨⟨pattern, (hmem pattern).mpr (.inr hp), hinclude, haccepts⟩, fun other ho hexclude => ?_⟩
  rcases (hmem other).mp ho with rfl | ho
  · cases hexclude.symm.trans hextra
  · exact hexcludes other ho hexclude

end Adding

end Reading

end Pattern

namespace Selection

open Pattern (Refused Usable Buildable globs)

variable {γ : Type} {globbing : Globbing γ}

/-- The globs of patterns that can all be read. -/
theorem ofGlobs_of_readable {patterns : List Pattern}
    (h : ∀ pattern ∈ patterns, pattern.Readable globbing) :
    ofGlobs globbing patterns = .ok (globs globbing false patterns, globs globbing true patterns) := by
  induction patterns with
  | nil => rfl
  | cons pattern rest ih =>
    obtain ⟨hpattern, hrest⟩ := List.forall_mem_cons.mp h
    rw [ofGlobs, ih hrest]
    split
    next hnil =>
      -- A pattern that says nothing is passed over and gives no glob.
      have hnone := hpattern.glob?_eq_none_iff.mpr hnil
      cases he : pattern.excludes <;> simp [globs, he, hnone]
    next hne =>
      obtain ⟨glob, hread⟩ := hpattern.resolve_left hne
      have hsome := Pattern.glob?_eq_some_iff.mpr ⟨hne, hread⟩
      cases he : pattern.excludes <;> simp [globs, he, hread, hsome]

/-- The first pattern that cannot be read is the one that is reported. -/
theorem ofGlobs_of_fault {before after : List Pattern} {pattern : Pattern} {fault : Glob.Fault}
    (hbefore : ∀ other ∈ before, other.Readable globbing) (hne : pattern.glob ≠ [])
    (hfault : globbing.read pattern.glob = .error fault) :
    ofGlobs globbing (before ++ pattern :: after) = .error (.badGlob pattern.glob fault) := by
  induction before with
  | nil =>
    rw [List.nil_append, ofGlobs, if_neg hne, hfault]
  | cons first rest ih =>
    obtain ⟨hfirst, hrest⟩ := List.forall_mem_cons.mp hbefore
    rw [List.cons_append, ofGlobs, ih hrest]
    split
    next => rfl
    next hfirstNe =>
      obtain ⟨glob, hread⟩ := hfirst.resolve_left hfirstNe
      rw [hread]

variable {patterns : List Text} {reason : NoFilesReason}

theorem ofPatternsBy_of_nothing
    (hreadable : ∀ pattern ∈ patterns.map Pattern.ofText, pattern.Readable globbing)
    (hnone : ∀ pattern ∈ patterns.map Pattern.ofText, pattern.excludes = false → pattern.glob = []) :
    ofPatternsBy globbing patterns = .error .noInclude := by
  rw [ofPatternsBy, ofGlobs_of_readable hreadable, (Pattern.globs_eq_nil_iff hreadable false).mpr hnone]
  rfl

/-- The sets are built for patterns that can all be read, if there is something to include. -/
theorem ofPatternsBy_eq_buildSets (h : Usable globbing (patterns.map Pattern.ofText)) :
    ofPatternsBy globbing patterns =
      buildSets globbing (globs globbing false (patterns.map Pattern.ofText))
        (globs globbing true (patterns.map Pattern.ofText)) := by
  obtain ⟨hreadable, pattern, hp, hinclude, hne⟩ := h
  have hsome : globs globbing false (patterns.map Pattern.ofText) ≠ [] := fun hnil =>
    hne ((Pattern.globs_eq_nil_iff hreadable false).mp hnil pattern hp hinclude)
  rw [ofPatternsBy, ofGlobs_of_readable hreadable]
  exact if_neg (mt List.isEmpty_iff.mp hsome)

theorem ofPatternsBy_of_refused (h : Refused globbing (patterns.map Pattern.ofText) reason) :
    ofPatternsBy globbing patterns = .error reason := by
  cases h with
  | badGlob hsplit hbefore hne hfault =>
    rw [ofPatternsBy, hsplit, ofGlobs_of_fault hbefore hne hfault]
  | noInclude hreadable hnone => exact ofPatternsBy_of_nothing hreadable hnone
  | badIncludes husable hbuild => rw [ofPatternsBy_eq_buildSets husable, buildSets, hbuild]
  | badExcludes husable hincluded hbuild =>
    rw [ofPatternsBy_eq_buildSets husable, buildSets, hincluded]
    dsimp only
    rw [hbuild]

/-- A list of patterns that can be used selects what its patterns select. -/
theorem ofPatternsBy_of_usable (h : Usable globbing (patterns.map Pattern.ofText))
    (hbuildable : Buildable globbing (patterns.map Pattern.ofText)) :
    ∃ selection, ofPatternsBy globbing patterns = .ok selection ∧
      ∀ path, selection.selects path = true ↔
        Pattern.Selects globbing (patterns.map Pattern.ofText) path := by
  obtain ⟨included, excluded, hincluded, hexcluded⟩ := hbuildable.exists_sets h
  have hselection : ofPatternsBy globbing patterns = .ok ⟨included, excluded⟩ := by
    rw [ofPatternsBy_eq_buildSets h, buildSets, hincluded]
    dsimp only
    rw [hexcluded]
  refine ⟨_, hselection, fun path => ?_⟩
  simp only [selects, globbing.build_accepts hincluded, globbing.build_accepts hexcluded,
    Bool.and_eq_true, Bool.not_eq_true', ← Bool.not_eq_true, Pattern.any_globs, Pattern.Selects,
    not_exists, not_and]

theorem ofPatternsBy_eq_error_iff :
    ofPatternsBy globbing patterns = .error reason ↔
      Refused globbing (patterns.map Pattern.ofText) reason := by
  refine ⟨fun h => ?_, ofPatternsBy_of_refused⟩
  rcases Pattern.refused_or_usable globbing (patterns.map Pattern.ofText) with
    ⟨other, hrefused⟩ | ⟨husable, hbuildable⟩
  · cases h.symm.trans (ofPatternsBy_of_refused hrefused)
    exact hrefused
  · obtain ⟨selection, hselection, -⟩ := ofPatternsBy_of_usable husable hbuildable
    cases h.symm.trans hselection

theorem usable_of_ofPatternsBy {selection : Selection}
    (h : ofPatternsBy globbing patterns = .ok selection) :
    Usable globbing (patterns.map Pattern.ofText) ∧
      Buildable globbing (patterns.map Pattern.ofText) := by
  rcases Pattern.refused_or_usable globbing (patterns.map Pattern.ofText) with
    ⟨other, hrefused⟩ | husable
  · cases h.symm.trans (ofPatternsBy_of_refused hrefused)
  · exact husable

/-- What a list of patterns selects, if it selects anything. -/
theorem selects_of_ofPatternsBy {selection : Selection}
    (h : ofPatternsBy globbing patterns = .ok selection) (path : Text) :
    selection.selects path = true ↔
      Pattern.Selects globbing (patterns.map Pattern.ofText) path := by
  obtain ⟨husable, hbuildable⟩ := usable_of_ofPatternsBy h
  obtain ⟨other, hother, hselects⟩ := ofPatternsBy_of_usable husable hbuildable
  cases h.symm.trans hother
  exact hselects path

end Selection

end BulkEdit
