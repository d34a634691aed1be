import BulkEdit.Plan.Loading
import Mathlib.Data.List.Nodup

/-!
# Violated conditions

A plan has to meet two conditions of its own and seven more with each of its rules. What is listed as wrong
with it are the conditions that it violates, first its own and then those of the rules in order. Two rules
may not have the same id: of rules that share one, each but the first is at fault, unless the id is blank,
which is a fault of its own. Only plans that meet all conditions are loaded.
-/

namespace BulkEdit

namespace Rule

/-- The conditions that a rule may violate, in the order in which they are listed. -/
def conditions (rule : Rule) : List Issue :=
  [.missingId, .repeatedId rule.id, .wholeLineInFile rule.id, .missingSearch rule.id,
    .linesInFile rule.id, .containsInFile rule.id, .lineZero rule.id]

/-- That a rule which comes after rules with the ids `earlier` violates a condition. -/
def Violates (rule : Rule) (earlier : List Text) : Issue → Prop
  | .noPatterns => False
  | .noRules => False
  | .missingId => rule.id.isBlank = true
  | .repeatedId id => ¬ id.isBlank = true ∧ id ∈ earlier
  | .wholeLineInFile _ => rule.manner = .wholeLine ∧ rule.scope = .wholeFile
  | .missingSearch _ => rule.manner ≠ .wholeLine ∧ ¬ ∃ text ∈ rule.search, text ≠ []
  | .linesInFile _ => rule.scope = .wholeFile ∧ rule.lines ≠ none
  | .containsInFile _ => rule.scope = .wholeFile ∧ rule.contains ≠ none
  | .lineZero _ => ∃ numbers ∈ rule.lines, 0 ∈ numbers

instance (rule : Rule) (earlier : List Text) : DecidablePred (rule.Violates earlier)
  | .noPatterns => inferInstanceAs (Decidable False)
  | .noRules => inferInstanceAs (Decidable False)
  | .missingId => inferInstanceAs (Decidable (_ = true))
  | .repeatedId _ => inferInstanceAs (Decidable (¬ _ = true ∧ _ ∈ earlier))
  | .wholeLineInFile _ => inferInstanceAs (Decidable (_ = _ ∧ _ = _))
  | .missingSearch _ => inferInstanceAs (Decidable (_ ≠ _ ∧ ¬ ∃ text ∈ rule.search, text ≠ []))
  | .linesInFile _ => inferInstanceAs (Decidable (_ = _ ∧ _ ≠ _))
  | .containsInFile _ => inferInstanceAs (Decidable (_ = _ ∧ _ ≠ _))
  | .lineZero _ => inferInstanceAs (Decidable (∃ numbers ∈ rule.lines, 0 ∈ numbers))

/-- What a rule has to be, whatever other rules there are. -/
structure Sound (rule : Rule) : Prop where
  named : ¬ rule.id.isBlank = true
  searches : rule.manner ≠ .wholeLine → ∃ text ∈ rule.search, text ≠ []
  in_lines : rule.manner = .wholeLine → rule.scope = .line
  unfiltered : rule.scope = .wholeFile → rule.lines = none ∧ rule.contains = none
  from_one : ∀ numbers ∈ rule.lines, 0 ∉ numbers

variable (rule : Rule) (earlier : List Text)

theorem idIssues_eq :
    rule.idIssues earlier =
      [Issue.missingId, .repeatedId rule.id].filter (rule.Violates earlier) := by
  by_cases hb : rule.id.isBlank = true <;> by_cases he : rule.id ∈ earlier <;>
    simp [idIssues, Violates, hb, he]

theorem mannerIssues_eq :
    rule.mannerIssues =
      [Issue.wholeLineInFile rule.id, .missingSearch rule.id].filter (rule.Violates earlier) := by
  by_cases hm : rule.manner = .wholeLine
  · by_cases hs : rule.scope = .wholeFile <;> simp [mannerIssues, Violates, hm, hs]
  · cases hs : rule.search with
    | none => simp [mannerIssues, searchText, Violates, hm, hs]
    | some text => by_cases ht : text = [] <;> simp [mannerIssues, searchText, Violates, hm, hs, ht]

theorem filterIssues_eq :
    rule.filterIssues =
      [Issue.linesInFile rule.id, .containsInFile rule.id].filter (rule.Violates earlier) := by
  by_cases hs : rule.scope = .wholeFile
  · cases hl : rule.lines <;> cases hc : rule.contains <;>
      simp [filterIssues, Violates, hs, hl, hc]
  · simp [filterIssues, Violates, hs]

theorem numberIssues_eq :
    rule.numberIssues = [Issue.lineZero rule.id].filter (rule.Violates earlier) := by
  cases hl : rule.lines with
  | none => simp [numberIssues, Violates, hl]
  | some numbers => by_cases hz : 0 ∈ numbers <;> simp [numberIssues, Violates, hl, hz]

theorem issues_eq : rule.issues earlier = rule.conditions.filter (rule.Violates earlier) := by
  rw [issues, idIssues_eq, mannerIssues_eq rule earlier, filterIssues_eq rule earlier,
    numberIssues_eq rule earlier, ← List.filter_append, ← List.filter_append, ← List.filter_append]
  rfl

theorem issues_eq_nil_iff :
    rule.issues earlier = [] ↔ rule.Sound ∧ rule.id ∉ earlier := by
  rw [issues_eq, List.filter_eq_nil_iff]
  simp only [conditions, List.forall_mem_cons, decide_eq_true_eq]
  simp only [Violates]
  constructor
  · rintro ⟨hid, hearlier, hline, hsearch, hlines, hcontains, hzero, -⟩
    refine ⟨⟨hid, fun hm => ?_, fun hm => ?_, fun hs => ⟨?_, ?_⟩, ?_⟩, fun he => hearlier ⟨hid, he⟩⟩
    · exact not_not.mp fun hn => hsearch ⟨hm, hn⟩
    · cases hs : rule.scope with
      | line => rfl
      | wholeFile => exact absurd ⟨hm, hs⟩ hline
    · exact not_not.mp fun hn => hlines ⟨hs, hn⟩
    · exact not_not.mp fun hn => hcontains ⟨hs, hn⟩
    · exact fun numbers hn hz => hzero ⟨numbers, hn, hz⟩
  · rintro ⟨⟨hid, hsearch, hline, hfilters, hnumbers⟩, hearlier⟩
    refine ⟨hid, fun h => hearlier h.2, ?_, fun h => h.2 (hsearch h.1), ?_, ?_, ?_, nofun⟩
    · rintro ⟨hm, hs⟩
      cases (hline hm).symm.trans hs
    · exact fun h => h.2 (hfilters h.1).1
    · exact fun h => h.2 (hfilters h.1).2
    · exact fun ⟨numbers, hn, hz⟩ => hnumbers numbers hn hz

theorem count_repeatedId_conditions (id : Text) :
    rule.conditions.count (.repeatedId id) = if rule.id = id then 1 else 0 := by
  by_cases h : rule.id = id <;> simp [conditions, h]

theorem count_missingId_conditions : rule.conditions.count .missingId = 1 := by
  simp [conditions]

/-- A condition is listed as often as the rule has it, and only if it is violated. -/
theorem count_issues (issue : Issue) :
    (rule.issues earlier).count issue =
      if rule.Violates earlier issue then rule.conditions.count issue else 0 := by
  rw [issues_eq]
  split
  next h => exact List.count_filter (decide_eq_true h)
  next h => exact List.count_eq_zero.mpr fun hm => h (of_decide_eq_true (List.mem_filter.mp hm).2)

end Rule

namespace Plan

/-- That a plan violates a condition of its own. -/
def Violates (plan : Plan) : Issue → Prop
  | .noPatterns => ∀ pattern ∈ plan.patterns, pattern.isBlank = true
  | .noRules => plan.rules = []
  | _ => False

instance (plan : Plan) : DecidablePred plan.Violates
  | .noPatterns => inferInstanceAs (Decidable (∀ pattern ∈ plan.patterns, pattern.isBlank = true))
  | .noRules => inferInstanceAs (Decidable (_ = _))
  | .missingId | .repeatedId _ | .wholeLineInFile _ | .missingSearch _ | .linesInFile _
  | .containsInFile _ | .lineZero _ => inferInstanceAs (Decidable False)

/-- The conditions that a plan violates, in the order of the conditions and of the rules. -/
def violations (plan : Plan) : List Issue :=
  [Issue.noPatterns, .noRules].filter plan.Violates ++
    plan.rules.zipIdx.flatMap fun (rule, place) =>
      rule.conditions.filter (rule.Violates ((plan.rules.take place).map Rule.id))

/-- What a plan has to be to be staged. -/
structure Sound (plan : Plan) : Prop where
  pattern : ∃ pattern ∈ plan.patterns, ¬ pattern.isBlank = true
  rule : plan.rules ≠ []
  rules : ∀ rule ∈ plan.rules, rule.Sound
  distinct : (plan.rules.map Rule.id).Nodup

theorem rulesIssues_eq (before rules : List Rule) :
    rulesIssues (before.map Rule.id) rules =
      (rules.zipIdx before.length).flatMap fun (rule, place) =>
        rule.conditions.filter (rule.Violates (((before ++ rules).take place).map Rule.id)) := by
  induction rules generalizing before with
  | nil => rfl
  | cons rule rest ih =>
    have hrest := ih (before ++ [rule])
    rw [List.map_append, List.map_singleton, List.append_assoc, List.singleton_append,
      List.length_append, List.length_singleton] at hrest
    have hbefore : (before ++ rule :: rest).take before.length = before := List.take_left
    rw [rulesIssues, hrest, Rule.issues_eq, List.zipIdx_cons, List.flatMap_cons]
    dsimp only
    rw [hbefore]

theorem issues_eq_violations (plan : Plan) : plan.issues = plan.violations := by
  have hpatterns : (plan.patterns.all Text.isBlank = true) ↔ plan.Violates .noPatterns :=
    List.all_eq_true
  have hrules : (plan.rules.isEmpty = true) ↔ plan.Violates .noRules := List.isEmpty_iff
  have hown : (if plan.patterns.all Text.isBlank then [Issue.noPatterns] else []) ++
      (if plan.rules.isEmpty then [Issue.noRules] else []) =
        [Issue.noPatterns, .noRules].filter plan.Violates := by
    simp only [hpatterns, hrules, List.filter_cons, List.filter_nil, decide_eq_true_eq]
    split <;> split <;> rfl
  rw [issues, violations, hown]
  exact congrArg _ (rulesIssues_eq [] plan.rules)

theorem rulesIssues_eq_nil_iff {earlier : List Text} {rules : List Rule} :
    rulesIssues earlier rules = [] ↔
      (∀ rule ∈ rules, rule.Sound) ∧ (∀ rule ∈ rules, rule.id ∉ earlier) ∧
        (rules.map Rule.id).Nodup := by
  induction rules generalizing earlier with
  | nil => simp [rulesIssues]
  | cons rule rest ih =>
    rw [rulesIssues, List.append_eq_nil_iff, Rule.issues_eq_nil_iff, ih, List.map_cons,
      List.nodup_cons]
    simp only [List.forall_mem_cons, List.mem_append, List.mem_singleton, not_or, List.mem_map,
      not_exists, not_and]
    constructor
    · rintro ⟨⟨hsound, hearlier⟩, hsounds, hothers, hdistinct⟩
      exact ⟨⟨hsound, hsounds⟩, ⟨hearlier, fun other ho => (hothers other ho).1⟩,
        fun other ho => (hothers other ho).2, hdistinct⟩
    · rintro ⟨⟨hsound, hsounds⟩, ⟨hearlier, hothers⟩, hne, hdistinct⟩
      exact ⟨⟨hsound, hearlier⟩, hsounds, fun other ho => ⟨hothers other ho, hne other ho⟩,
        hdistinct⟩

theorem issues_eq_nil_iff (plan : Plan) : plan.issues = [] ↔ plan.Sound := by
  have hpatterns : ¬ plan.patterns.all Text.isBlank = true ↔
      ∃ pattern ∈ plan.patterns, ¬ pattern.isBlank = true := by
    simp [List.all_eq_true]
  have hrules : ¬ plan.rules.isEmpty = true ↔ plan.rules ≠ [] := not_congr List.isEmpty_iff
  rw [issues, List.append_eq_nil_iff, List.append_eq_nil_iff, ite_eq_right_iff, ite_eq_right_iff,
    rulesIssues_eq_nil_iff]
  constructor
  · rintro ⟨⟨hown, hany⟩, hsound, -, hdistinct⟩
    exact ⟨hpatterns.mp fun h => List.cons_ne_nil _ _ (hown h),
      hrules.mp fun h => List.cons_ne_nil _ _ (hany h), hsound, hdistinct⟩
  · rintro ⟨hpattern, hrule, hsound, hdistinct⟩
    exact ⟨⟨fun h => absurd h (hpatterns.mpr hpattern), fun h => absurd h (hrules.mpr hrule)⟩,
      hsound, fun _ _ => List.not_mem_nil, hdistinct⟩

theorem count_repeatedId_rulesIssues {id : Text} (h : ¬ id.isBlank = true) (earlier : List Text)
    (rules : List Rule) :
    (rulesIssues earlier rules).count (.repeatedId id) =
      if id ∈ earlier then (rules.map Rule.id).count id else (rules.map Rule.id).count id - 1 := by
  have hviolates : ∀ (rule : Rule) (before : List Text),
      rule.Violates before (.repeatedId id) ↔ id ∈ before := fun _ _ => and_iff_right h
  induction rules generalizing earlier with
  | nil => simp [rulesIssues]
  | cons rule rest ih =>
    rw [rulesIssues, List.count_append, Rule.count_issues, Rule.count_repeatedId_conditions, ih,
      List.map_cons, List.count_cons]
    simp only [hviolates, List.mem_append, List.mem_singleton, beq_iff_eq]
    by_cases he : id ∈ earlier
    · simp only [he, true_or, if_true]
      omega
    · by_cases hid : rule.id = id
      · simp [he, hid]
      · simp [he, hid, Ne.symm hid]

theorem count_missingId_rulesIssues (earlier : List Text) (rules : List Rule) :
    (rulesIssues earlier rules).count .missingId = rules.countP (·.id.isBlank) := by
  induction rules generalizing earlier with
  | nil => rfl
  | cons rule rest ih =>
    rw [rulesIssues, List.count_append, Rule.count_issues, Rule.count_missingId_conditions, ih,
      List.countP_cons, Nat.add_comm]
    rfl

theorem repeatedId_not_mem_rulesIssues {id : Text} (h : id.isBlank = true) (earlier : List Text)
    (rules : List Rule) : Issue.repeatedId id ∉ rulesIssues earlier rules := by
  induction rules generalizing earlier with
  | nil => exact List.not_mem_nil
  | cons rule rest ih =>
    rw [rulesIssues, List.mem_append, Rule.issues_eq, List.mem_filter, decide_eq_true_eq]
    rintro (⟨-, hblank, -⟩ | hrest)
    · exact hblank h
    · exact ih _ hrest

theorem count_issues_of_rules (plan : Plan) (issue : Issue) (hpatterns : issue ≠ .noPatterns)
    (hrules : issue ≠ .noRules) : plan.issues.count issue = (rulesIssues [] plan.rules).count issue := by
  have hown : (if plan.patterns.all Text.isBlank then [Issue.noPatterns] else []).count issue = 0 := by
    split <;> simp [Ne.symm hpatterns]
  have hany : (if plan.rules.isEmpty then [Issue.noRules] else []).count issue = 0 := by
    split <;> simp [Ne.symm hrules]
  rw [issues, List.count_append, List.count_append, hown, hany, Nat.zero_add]

theorem issues_of_ofText {text : Text} {plan : Plan} (h : Plan.ofText text = .ok plan) :
    plan.issues = [] := by
  rw [ofText] at h
  split at h
  · cases h
  · split at h
    · cases h
    · split at h
      next hissues =>
        cases h
        exact List.isEmpty_iff.mp hissues
      next => cases h

theorem ofText_of_ofTable {text : Text} {entries : List (Text × Toml.Value)} {plan : Plan}
    (hread : Toml.Reading.read? text = some entries) (htable : Plan.ofTable entries = .ok plan) :
    Plan.ofText text = if plan.issues.isEmpty then .ok plan else .error (.invalid plan.issues) := by
  simp only [ofText, hread, htable]

/-- Nothing is listed for a plan exactly if it is sound. Otherwise its violations are listed: each use but
the first of an id that is not blank, and each use of a blank one as missing. Every plan that is loaded is
sound, and one that is not sound is refused with its violations. -/
theorem validation_exact (plan : Plan) :
    (plan.issues = [] ↔ plan.Sound) ∧
    plan.issues = plan.violations ∧
    (∀ id, plan.issues.count (.repeatedId id) =
      if id.isBlank then 0 else (plan.rules.map Rule.id).count id - 1) ∧
    plan.issues.count .missingId = plan.rules.countP (·.id.isBlank) ∧
    (∀ text, Plan.ofText text = .ok plan → plan.Sound) ∧
    ∀ text entries, Toml.Reading.read? text = some entries → Plan.ofTable entries = .ok plan →
      ¬ plan.Sound → Plan.ofText text = .error (.invalid plan.violations) := by
  refine ⟨plan.issues_eq_nil_iff, plan.issues_eq_violations, fun id => ?_, ?_, fun text h => ?_,
    fun text entries hread htable h => ?_⟩
  · rw [count_issues_of_rules plan (.repeatedId id) nofun nofun]
    split
    next hb => exact List.count_eq_zero.mpr (repeatedId_not_mem_rulesIssues hb [] plan.rules)
    next hb => exact (count_repeatedId_rulesIssues hb [] plan.rules).trans (if_neg List.not_mem_nil)
  · rw [count_issues_of_rules plan .missingId nofun nofun]
    exact count_missingId_rulesIssues [] plan.rules
  · exact plan.issues_eq_nil_iff.mp (issues_of_ofText h)
  · have hissues : ¬ plan.issues.isEmpty = true := by rwa [List.isEmpty_iff, issues_eq_nil_iff]
    rw [ofText_of_ofTable hread htable, if_neg hissues, issues_eq_violations]

/-- A blank id used twice and another one used three times, by rules that are at fault in other ways. -/
theorem validation_exact_of_repeated_ids :
    let blank : Rule :=
      ⟨[' '], .wholeFile, .wholeLine, none, [], some [2, 0], some []⟩
    let searching : Rule := ⟨['a'], .line, .first, some [], [], none, none⟩
    let sound : Rule := ⟨['a'], .line, .every, some ['x'], [], some [1], none⟩
    let plan : Plan := ⟨[], none, [[' ', '\t']], [blank, sound, searching, blank, sound]⟩
    let text := "files = ['*']\n[[rules]]\nid = 'a'\nscope = 'line'\nsearch = 'x'\nreplace = ''".toList
    let loaded : Plan := ⟨[], none, [['*']], [{ sound with manner := .first, lines := none }]⟩
    ¬ plan.Sound ∧
    plan.issues = [.noPatterns,
      .missingId, .wholeLineInFile [' '], .linesInFile [' '], .containsInFile [' '], .lineZero [' '],
      .repeatedId ['a'], .missingSearch ['a'],
      .missingId, .wholeLineInFile [' '], .linesInFile [' '], .containsInFile [' '], .lineZero [' '],
      .repeatedId ['a']] ∧
    plan.issues.count (.repeatedId ['a']) = 2 ∧
    Plan.ofText text = .ok loaded ∧ loaded.Sound := by
  intro blank searching sound plan text loaded
  obtain ⟨hiff, hviolations, hrepeated, -, -, -⟩ := validation_exact plan
  obtain ⟨-, -, -, -, hloads, -⟩ := validation_exact loaded
  have hlisted : plan.violations ≠ [] := by decide +kernel
  have huses : (plan.rules.map Rule.id).count ['a'] = 3 := by decide
  have hcount := hrepeated ['a']
  rw [huses] at hcount
  have hload : Plan.ofText text = .ok loaded := by decide +kernel
  exact ⟨fun h => hlisted (hviolations ▸ hiff.mpr h), hviolations.trans (by decide +kernel), hcount,
    hload, hloads text hload⟩

end Plan

end BulkEdit
