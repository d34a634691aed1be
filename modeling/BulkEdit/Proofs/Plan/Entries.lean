import BulkEdit.Plan.Staging
import BulkEdit.Proofs.Plan.Validity
import BulkEdit.Proofs.Session.Snapshots
import Mathlib.Data.List.Flatten
import Mathlib.Data.List.Sigma

/-!
# What a plan records

A valid plan on files that can be read records for each file the edits of its rules for files, and
behind all of these for each line the edits of its rules for lines. A rule edits a line that it selects
and that holds its search text, by what was read; the edit starts from what the earlier rules make of the
line. How many edits a rule contributes is therefore settled without the other rules.
-/

namespace BulkEdit

namespace Rule

/-- Whether a rule for lines edits a line that was read. -/
def edits (rule : Rule) (line : Line) : Bool :=
  rule.selects line.number line.text &&
    (rule.manner == .wholeLine || line.text.has rule.searchText)

def fileEdit (rule : Rule) (file : Path) : Edit :=
  ⟨file, .wholeFile, rule.manner, rule.searchText, rule.replacement⟩

/-- The edit of a line that reads `old` by then. -/
def lineEdit (rule : Rule) (file : Path) (number : Nat) (old : Text) : Edit :=
  ⟨file, .line number, rule.manner, old,
    rule.manner.replace rule.searchText rule.replacement old⟩

/-- The number of edits that a rule contributes. -/
def contribution (rule : Rule) (store : MemoryStore) (files : List Path) : Nat :=
  match rule.scope with
  | .wholeFile => files.length
  | .line => (files.flatMap fun file => (store.textOf file).lines).countP rule.edits

end Rule

namespace Plan

/-- An edit with the place of the rule that it comes from. -/
structure Entry where
  edit : Edit
  place : Nat
  deriving DecidableEq, Repr

def fileEntries (rules : List (Rule × Nat)) (file : Path) : List Entry :=
  rules.map fun placed => ⟨placed.1.fileEdit file, placed.2⟩

/-- The edits of a line by rules in order, each from the text that the one before it makes. -/
def chain (file : Path) (number : Nat) : Text → List (Rule × Nat) → List Entry
  | _, [] => []
  | old, (rule, place) :: rest =>
    let edit := rule.lineEdit file number old
    ⟨edit, place⟩ :: chain file number edit.new rest

def lineEntries (rules : List (Rule × Nat)) (file : Path) (line : Line) : List Entry :=
  chain file line.number line.text (rules.filter fun placed => placed.1.edits line)

/-- What a plan records for files that read as the store has them. -/
def entries (plan : Plan) (store : MemoryStore) (files : List Path) : List Entry :=
  files.flatMap (fileEntries (plan.rulesFor .wholeFile)) ++
    files.flatMap fun file =>
      (store.textOf file).lines.flatMap (lineEntries (plan.rulesFor .line) file)

theorem map_fst_rulesFor (plan : Plan) (scope : Granularity) :
    (plan.rulesFor scope).map Prod.fst = plan.rules.filter fun rule => rule.scope == scope := by
  have hfst := List.zipIdx_map_fst 0 plan.rules
  conv_rhs => rw [← hfst, List.filter_map]
  rfl

theorem forall_mem_rulesFor {plan : Plan} {scope : Granularity} {p : Rule → Prop} :
    (∀ placed ∈ plan.rulesFor scope, p placed.1) ↔
      ∀ rule ∈ plan.rules, rule.scope = scope → p rule := by
  rw [← List.forall_mem_map, map_fst_rulesFor]
  simp only [List.mem_filter, beq_iff_eq, and_imp]

section Places

theorem place_chain (file : Path) (number : Nat) (old : Text) (rules : List (Rule × Nat)) :
    (chain file number old rules).map Entry.place = rules.map Prod.snd := by
  induction rules generalizing old with
  | nil => rfl
  | cons placed rest ih => exact congrArg (placed.2 :: ·) (ih _)

theorem place_fileEntries (rules : List (Rule × Nat)) (file : Path) :
    (fileEntries rules file).map Entry.place = rules.map Prod.snd := by
  rw [fileEntries, List.map_map]
  rfl

theorem place_lineEntries (rules : List (Rule × Nat)) (file : Path) (line : Line) :
    (lineEntries rules file line).map Entry.place =
      (rules.filter fun placed => placed.1.edits line).map Prod.snd :=
  place_chain file line.number line.text _

variable {rules : List Rule} {rule : Rule} {place : Nat}

theorem count_places (hrule : rules[place]? = some rule) (wanted : Rule → Bool) :
    ((rules.zipIdx.filter fun placed => wanted placed.1).map Prod.snd).count place =
      if wanted rule then 1 else 0 := by
  have hnodup : ((rules.zipIdx.filter fun placed => wanted placed.1).map Prod.snd).Nodup :=
    (List.nodup_zipIdx_map_snd rules).sublist (List.filter_sublist.map Prod.snd)
  have hmem : place ∈ (rules.zipIdx.filter fun placed => wanted placed.1).map Prod.snd ↔
      wanted rule = true := by
    rw [List.mem_map]
    constructor
    · rintro ⟨⟨other, _⟩, hplaced, rfl⟩
      obtain ⟨hother, hwanted⟩ := List.mem_filter.mp hplaced
      obtain rfl := Option.some.inj (hrule.symm.trans (List.mem_zipIdx_iff_getElem?.mp hother))
      exact hwanted
    · intro hwanted
      have hplaced : (rule, place) ∈ rules.zipIdx := List.mem_zipIdx_iff_getElem?.mpr hrule
      exact ⟨(rule, place), List.mem_filter.mpr ⟨hplaced, hwanted⟩, rfl⟩
  rw [hnodup.count]
  simp only [hmem]

/-- Over some views, a rule is counted once for each at which it is wanted. -/
theorem count_flatMap_places {ν : Type} (hrule : rules[place]? = some rule)
    (wanted : ν → Rule → Bool) (views : List ν) :
    (views.flatMap fun view =>
        (rules.zipIdx.filter fun placed => wanted view placed.1).map Prod.snd).count place =
      views.countP fun view => wanted view rule := by
  induction views with
  | nil => rfl
  | cons view rest ih =>
    rw [List.flatMap_cons, List.count_append, ih, count_places hrule (wanted view),
      List.countP_cons, Nat.add_comm]

theorem place_entries (plan : Plan) (store : MemoryStore) (files : List Path) :
    (plan.entries store files).map Entry.place =
      (files.flatMap fun _ =>
        (plan.rules.zipIdx.filter fun placed => placed.1.scope == .wholeFile).map Prod.snd) ++
      (files.flatMap fun file => (store.textOf file).lines).flatMap fun line =>
        (plan.rules.zipIdx.filter fun placed =>
          placed.1.edits line && placed.1.scope == .line).map Prod.snd := by
  simp only [entries, rulesFor, List.map_append, List.map_flatMap, place_fileEntries,
    place_lineEntries, List.filter_filter, List.flatMap_assoc]

theorem count_place (entries : List Entry) (place : Nat) :
    (entries.map Entry.place).count place = entries.countP fun entry => entry.place == place := by
  rw [List.count, List.countP_map]
  rfl

theorem count_entries {plan : Plan} (hrule : plan.rules[place]? = some rule) (store : MemoryStore)
    (files : List Path) :
    ((plan.entries store files).map Entry.place).count place = rule.contribution store files := by
  rw [place_entries, List.count_append,
    count_flatMap_places hrule (fun _ rule => rule.scope == .wholeFile),
    count_flatMap_places hrule (fun line rule => rule.edits line && rule.scope == .line),
    Rule.contribution]
  cases rule.scope with
  | wholeFile => simp
  | line => simp

end Places

section Visits

theorem run_fileScript (view : FileView) (rules : List (Rule × Nat)) (staging : Staging)
    (tally ignored : Tally) :
    (fileScript rules tally).run view.perform (staging, ignored) =
      .ok () (Staging.stageAll (view.requests (rules.map fun placed => fileCall placed.1)) staging,
        tally ++ rules.map Prod.snd) := by
  induction rules generalizing staging tally with
  | nil => simp [fileScript, Script.run, FileView.requests, Staging.stageAll]
  | cons placed rest ih =>
    obtain ⟨rule, place⟩ := placed
    simp only [fileScript, Script.run, view.perform_eq_after, ih, List.append_assoc]
    rfl

theorem isWanted_lineCall (view : LineView) (rule : Rule) (text : Text) :
    Staging.isWanted (view.request (lineCall rule)) text =
      (rule.manner == .wholeLine || text.has rule.searchText) := by
  rw [lineCall]
  cases hm : rule.manner <;> rfl

/-- The calls of rules on a line. -/
def lineCalls (rules : List (Rule × Nat)) (line : Line) : List LineCall :=
  (rules.filter fun placed => placed.1.selects line.number line.text).map fun placed =>
    lineCall placed.1

theorem lineCalls_cons (placed : Rule × Nat) (rest : List (Rule × Nat)) (line : Line) :
    lineCalls (placed :: rest) line =
      if placed.1.selects line.number line.text then lineCall placed.1 :: lineCalls rest line
      else lineCalls rest line := by
  rw [lineCalls, List.filter_cons]
  split <;> rfl

theorem run_lineScript {view : LineView} (h : 1 ≤ view.line.number) (rules : List (Rule × Nat))
    (staging : Staging) (tally ignored : Tally) :
    (lineScript view.line rules tally).run view.perform (staging, ignored) =
      .ok () (Staging.stageAll (view.requests (lineCalls rules view.line)) staging,
        tally ++ (rules.filter fun placed => placed.1.edits view.line).map Prod.snd) := by
  induction rules generalizing staging tally with
  | nil => simp [lineScript, lineCalls, Script.run, LineView.requests, Staging.stageAll]
  | cons placed rest ih =>
    obtain ⟨rule, place⟩ := placed
    by_cases hs : rule.selects view.line.number view.line.text = true
    · -- the reply depends on the line as read, not on what is staged by then
      have hedits : rule.edits view.line =
          Staging.isWanted (view.request (lineCall rule)) view.line.text := by
        rw [isWanted_lineCall, Rule.edits, hs, Bool.true_and]
      rw [lineScript, if_pos hs, lineCalls_cons, if_pos hs, Script.run, LineView.perform_eq h]
      simp only [ih, List.filter_cons, hedits]
      cases Staging.isWanted (view.request (lineCall rule)) view.line.text with
      | false => rfl
      | true => simp [LineView.requests, Staging.stageAll]
    · have hedits : ¬ rule.edits view.line = true := by simp [Rule.edits, hs]
      rw [lineScript, if_neg hs, lineCalls_cons, if_neg hs, ih]
      simp only [List.filter_cons, if_neg hedits]

end Visits

section Edits

variable {store : MemoryStore} {rules : List (Rule × Nat)}

theorem fileEdits_fileCalls (hrules : ∀ placed ∈ rules, placed.1.manner ≠ .wholeLine) (file : Path) :
    store.fileEdits (fun _ => rules.map fun placed => fileCall placed.1) file =
      (fileEntries rules file).map Entry.edit := by
  rw [MemoryStore.fileEdits, fileEntries, List.map_map, List.map_map]
  refine List.map_congr_left fun placed hplaced => ?_
  have hmanner : (if placed.1.manner == .every then Manner.every else .first) = placed.1.manner := by
    cases hm : placed.1.manner with
    | first => rfl
    | every => rfl
    | wholeLine => exact absurd hm (hrules placed hplaced)
  change Edit.mk file .wholeFile _ _ _ = Edit.mk file .wholeFile _ _ _
  exact congrArg (Edit.mk file .wholeFile · placed.1.searchText placed.1.replacement) hmanner

theorem ofLine_lineCall (view : LineView) (rule : Rule) (number : Nat) (old : Text) :
    Edit.ofLine (view.request (lineCall rule)) number old = rule.lineEdit view.file number old := by
  rw [lineCall, Rule.lineEdit]
  cases rule.manner <;> rfl

theorem chain_requests (view : LineView) (number : Nat) (old : Text) (rules : List (Rule × Nat)) :
    Edit.chain number old (rules.map fun placed => view.request (lineCall placed.1)) =
      (chain view.file number old rules).map Entry.edit := by
  induction rules generalizing old with
  | nil => rfl
  | cons placed rest ih =>
    rw [List.map_cons, Edit.chain, ih, ofLine_lineCall, chain, List.map_cons]

/-- The calls that find something to edit are those of the rules that edit the line. -/
theorem filter_requests_lineCalls (view : LineView) (rules : List (Rule × Nat)) :
    (view.requests (lineCalls rules view.line)).filter
        (fun request => Staging.isWanted request view.line.text) =
      (rules.filter fun placed => placed.1.edits view.line).map fun placed =>
        view.request (lineCall placed.1) := by
  rw [LineView.requests, lineCalls, List.map_map, List.filter_map, List.filter_filter]
  simp only [Function.comp_def, isWanted_lineCall, Rule.edits, Bool.and_comm]

theorem edits_lineCalls (view : LineView) (rules : List (Rule × Nat)) :
    view.edits (lineCalls rules view.line) =
      (lineEntries rules view.file view.line).map Entry.edit := by
  rw [LineView.edits, filter_requests_lineCalls, chain_requests, lineEntries]

theorem lineEdits_lineCalls (rules : List (Rule × Nat)) (file : Path) :
    store.lineEdits (fun view => lineCalls rules view.line) file =
      ((store.textOf file).lines.flatMap (lineEntries rules file)).map Entry.edit := by
  rw [MemoryStore.lineEdits, LineView.ofFile, List.flatMap_map, List.map_flatMap]
  exact congrArg (List.flatMap · _) (funext fun line => edits_lineCalls ⟨file, _, line⟩ rules)

end Edits

section Passes

open MemoryStore (access)

variable {store : MemoryStore} {files : List Path}

theorem runPass_fileScript {rules : List (Rule × Nat)}
    (hrules : ∀ placed ∈ rules, placed.1.manner ≠ .wholeLine)
    (hread : ∀ file ∈ files, store.readFault? file = none) (staging : Staging) (tally : Tally) :
    let entries := files.flatMap (fileEntries rules)
    runPass rules (Session.filePass access (fun _ => fileScript rules) files)
        ⟨store, staging, tally⟩ =
      .ok () ⟨store, { staging with ledger := staging.ledger ++ entries.map Entry.edit },
        tally ++ entries.map Entry.place⟩ := by
  intro entries
  have hrun : ∀ view ∈ store.seen FileView.ofFile files, ∀ (before : Staging) (kept : Tally),
      (fileScript rules kept).run view.perform (before, kept) =
        .ok () (Staging.stageAll (view.requests (rules.map fun placed => fileCall placed.1)) before,
          kept ++ rules.map Prod.snd) :=
    fun view _ before kept => run_fileScript view rules before kept kept
  have hledger : files.flatMap (store.fileEdits fun _ =>
      rules.map fun placed => fileCall placed.1) = entries.map Entry.edit := by
    rw [List.map_flatMap]
    exact congrArg (List.flatMap · files) (funext fun file => fileEdits_fileCalls hrules file)
  have hmemo : (store.seen FileView.ofFile files).foldl
      (fun kept _ => kept ++ rules.map Prod.snd) tally =
        tally ++ entries.map Entry.place := by
    rw [List.foldl_append_eq_append, ← List.flatMap_def, MemoryStore.seen_of_readable hread,
      List.flatMap_assoc, List.map_flatMap]
    simp only [FileView.ofFile, List.flatMap_singleton, place_fileEntries]
  have hpass := Session.pass_of_run hrun staging tally
  rw [MemoryStore.unreadable?_of_readable hread] at hpass
  simp only [Session.stageAll_seen_files hread, hledger, hmemo] at hpass
  -- without rules the pass is left out, and there is nothing to enter
  cases rules with
  | nil =>
    have hnone : entries = [] := List.flatMap_eq_nil_iff.mpr fun _ _ => rfl
    simp [hnone]
    rfl
  | cons placed rest => exact hpass

theorem runPass_lineScript (rules : List (Rule × Nat)) (hd : Path.Distinct files)
    (hread : ∀ file ∈ files, store.readFault? file = none) {staging : Staging}
    (hfresh : staging.drafts = []) (tally : Tally) :
    let entries := files.flatMap fun file =>
      (store.textOf file).lines.flatMap (lineEntries rules file)
    ∃ after : Staging, after.ledger = staging.ledger ++ entries.map Entry.edit ∧
      runPass rules (Session.linePass access (fun view => lineScript view.line rules) files)
          ⟨store, staging, tally⟩ =
        .ok () ⟨store, after, tally ++ entries.map Entry.place⟩ := by
  intro entries
  have hrun : ∀ view ∈ store.seen LineView.ofFile files, ∀ (before : Staging) (kept : Tally),
      (lineScript view.line rules kept).run view.perform (before, kept) =
        .ok () (Staging.stageAll (view.requests (lineCalls rules view.line)) before,
          kept ++ (rules.filter fun placed => placed.1.edits view.line).map Prod.snd) :=
    fun view hv before kept =>
      run_lineScript (Session.one_le_number_of_seen hv) rules before kept kept
  have hledger : files.flatMap (store.lineEdits fun view => lineCalls rules view.line) =
      entries.map Entry.edit := by
    rw [List.map_flatMap]
    exact congrArg (List.flatMap · files) (funext fun file => lineEdits_lineCalls rules file)
  have hmemo : (store.seen LineView.ofFile files).foldl (fun kept view =>
      kept ++ (rules.filter fun placed => placed.1.edits view.line).map Prod.snd) tally =
        tally ++ entries.map Entry.place := by
    rw [List.foldl_append_eq_append, ← List.flatMap_def, MemoryStore.seen_of_readable hread,
      List.flatMap_assoc, List.map_flatMap]
    simp only [LineView.ofFile, List.flatMap_map, List.map_flatMap, place_lineEntries]
  have hpass := Session.pass_of_run hrun staging tally
  rw [MemoryStore.unreadable?_of_readable hread] at hpass
  simp only [hmemo] at hpass
  have hstaged := Session.ledger_stageAll_seen_lines hd hread (fun view => lineCalls rules view.line)
    hfresh
  rw [hledger] at hstaged
  cases rules with
  | nil =>
    have hnone : entries = [] :=
      List.flatMap_eq_nil_iff.mpr fun _ _ => List.flatMap_eq_nil_iff.mpr fun _ _ => rfl
    exact ⟨staging, by simp [hnone], by simp [hnone]; rfl⟩
  | cons placed rest => exact ⟨_, hstaged, hpass⟩

variable {plan : Plan}

/-- Both passes of a plan over files that can be read. -/
theorem passes_of_readable
    (hplan : ∀ rule ∈ plan.rules, rule.scope = .wholeFile → rule.manner ≠ .wholeLine)
    (hd : Path.Distinct files) (hread : ∀ file ∈ files, store.readFault? file = none) :
    ∃ staging, staging.ledger = (plan.entries store files).map Entry.edit ∧
      plan.passes access files ⟨store, .empty, []⟩ =
        .ok () ⟨store, staging, (plan.entries store files).map Entry.place⟩ := by
  have hfiles := runPass_fileScript (forall_mem_rulesFor.mpr hplan) hread .empty []
  obtain ⟨staging, hledger, hlines⟩ := runPass_lineScript (plan.rulesFor .line) hd hread
    (rfl : (Staging.mk ((files.flatMap (fileEntries (plan.rulesFor .wholeFile))).map Entry.edit)
      []).drafts = []) ((files.flatMap (fileEntries (plan.rulesFor .wholeFile))).map Entry.place)
  rw [entries, List.map_append, List.map_append]
  refine ⟨staging, hledger, ?_⟩
  simp only [passes, bind, EStateM.bind, hfiles]
  exact hlines

theorem stage_of_readable (plan : Plan) {selection : Selection}
    (hplan : ∀ rule ∈ plan.rules, rule.scope = .wholeFile → rule.manner ≠ .wholeLine)
    (hselection : Selection.ofPatterns plan.patterns = .ok selection)
    (hfiles : store.matching selection ≠ [])
    (hread : ∀ file ∈ store.matching selection, store.readFault? file = none) :
    let entries := plan.entries store (store.matching selection)
    ∃ staging, staging.ledger = entries.map Entry.edit ∧
      plan.stage access store = .ok ⟨⟨store.matching selection, staging⟩,
        plan.ruleCounts (entries.map Entry.place)⟩ store := by
  intro entries
  obtain ⟨staging, hledger, hpasses⟩ :=
    passes_of_readable hplan (store.distinct_matching selection) hread
  refine ⟨staging, hledger, ?_⟩
  have hopen : Session.ofPatterns access plan.patterns store =
      .ok ⟨store.matching selection, .empty⟩ store := by
    rw [Session.ofPatterns_eq, hselection]
    exact if_neg hfiles
  rw [stage, hopen]
  simp only [hpasses]
  rfl

/-- Staging a valid plan records its entries in order and counts them by their rules. A rule has the same
count in a plan of its own. -/
theorem stage_records_entries {selection : Selection} (hvalid : plan.issues = [])
    (hselection : Selection.ofPatterns plan.patterns = .ok selection)
    (hfiles : store.matching selection ≠ [])
    (hread : ∀ file ∈ store.matching selection, store.readFault? file = none) :
    let entries := plan.entries store (store.matching selection)
    let countOf := fun place => entries.countP fun entry => entry.place == place
    ∃ staged, plan.stage access store = .ok staged store ∧
      staged.session.files = store.matching selection ∧
      staged.session.staging.ledger = entries.map Entry.edit ∧
      staged.counts = plan.rules.zipIdx.map (fun placed => (placed.1.id, countOf placed.2)) ∧
      ∀ place rule, plan.rules[place]? = some rule →
        ∃ alone, { plan with rules := [rule] }.stage access store = .ok alone store ∧
          alone.counts = [(rule.id, countOf place)] := by
  intro entries countOf
  have hplan := manner_ne_wholeLine_of_valid hvalid
  obtain ⟨staging, hledger, hstage⟩ := stage_of_readable plan hplan hselection hfiles hread
  refine ⟨_, hstage, rfl, hledger, ?_, fun place rule hrule => ?_⟩
  · simp only [ruleCounts, count_place]
    rfl
  · have halone : ∀ other ∈ [rule], other.scope = .wholeFile → other.manner ≠ .wholeLine := by
      intro other ho
      obtain rfl := List.mem_singleton.mp ho
      exact hplan other (List.mem_of_getElem? hrule)
    have hcount : countOf place = rule.contribution store (store.matching selection) := by
      rw [← count_entries hrule, count_place]
    have hfirst : ({ plan with rules := [rule] } : Plan).rules[0]? = some rule := rfl
    obtain ⟨_, -, hstage⟩ := stage_of_readable { plan with rules := [rule] } halone hselection hfiles
      hread
    refine ⟨_, hstage, ?_⟩
    rw [hcount, ← count_entries hfirst]
    rfl

/-- Rules of both scopes in turns. The third and the fourth start from what the first makes of their
line, and the fourth is held to the second line of the first file. -/
theorem stage_of_rules_in_turns :
    let a : Path := ⟨['a']⟩
    let b : Path := ⟨['b']⟩
    let held : Rule := ⟨['h'], .line, .first, some ['x'], ['w'], some [2], none⟩
    let plan : Plan := ⟨[], none, [['*']],
      [⟨['d'], .line, .every, some ['x'], ['x', 'x'], none, none⟩,
        ⟨['f'], .wholeFile, .first, some ['v'], [], none, none⟩,
        ⟨['l'], .line, .wholeLine, none, ['z'], none, some ['y']⟩, held]⟩
    let store := (MemoryStore.empty.set a ['x', 'y', '\n', 'x']).set b []
    plan.issues = [] ∧
    ∃ selection, Selection.ofPatterns plan.patterns = .ok selection ∧
      store.matching selection = [a, b] ∧
      (∀ file ∈ store.matching selection, store.readFault? file = none) ∧
      ∃ staged, plan.stage access store = .ok staged store ∧
        staged.session.staging.ledger =
          [⟨a, .wholeFile, .first, ['v'], []⟩, ⟨b, .wholeFile, .first, ['v'], []⟩,
            ⟨a, .line 1, .every, ['x', 'y'], ['x', 'x', 'y']⟩,
            ⟨a, .line 1, .wholeLine, ['x', 'x', 'y'], ['z']⟩,
            ⟨a, .line 2, .every, ['x'], ['x', 'x']⟩, ⟨a, .line 2, .first, ['x', 'x'], ['w', 'x']⟩] ∧
        staged.counts = [(['d'], 2), (['f'], 2), (['l'], 1), (['h'], 1)] ∧
        ∃ alone, { plan with rules := [held] }.stage access store = .ok alone store ∧
          alone.counts = [(['h'], 1)] := by
  intro a b held plan store
  have hvalid : plan.issues = [] := by decide +kernel
  obtain ⟨selection, hselection, hfiles⟩ : ∃ selection,
      Selection.ofPatterns plan.patterns = .ok selection ∧ store.matching selection = [a, b] :=
    ⟨_, rfl, rfl⟩
  have hread : ∀ file ∈ store.matching selection, store.readFault? file = none := by
    rw [hfiles]
    decide +kernel
  have hsome : store.matching selection ≠ [] := by
    rw [hfiles]
    exact List.cons_ne_nil _ _
  obtain ⟨staged, hstage, -, hledger, hcounts, halone⟩ :=
    stage_records_entries hvalid hselection hsome hread
  rw [hfiles] at hledger hcounts halone
  refine ⟨hvalid, selection, hselection, hfiles, hread, staged, hstage, ?_, ?_, ?_⟩
  · rw [hledger]
    decide +kernel
  · rw [hcounts]
    decide +kernel
  · obtain ⟨alone, hstaged, hcount⟩ := halone 3 held rfl
    refine ⟨alone, hstaged, hcount.trans ?_⟩
    decide +kernel

end Passes

end Plan

end BulkEdit
