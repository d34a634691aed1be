import BulkEdit.Proofs.Plan.Entries
import BulkEdit.Proofs.Session.Accounting

/-!
# Tallies

While a plan is staged its tally grows with the ledger, edit by edit, and names rules of the plan only. The
counts of the rules therefore come to the number of edits, as the reports of the session do. This holds for
plans of all kinds, whatever is read, as long as staging comes to its end.
-/

namespace BulkEdit

theorem Edit.length_chain (number : Nat) (old : Text) (requests : List Request) :
    (chain number old requests).length = requests.length := by
  induction requests generalizing old with
  | nil => rfl
  | cons request rest ih => exact congrArg (· + 1) (ih _)

namespace Plan

variable {σ : Type} {plan : Plan}

/-- That there is an entry in the tally for each edit, and each is the place of a rule. -/
structure Tallied (plan : Plan) (kept : Staging × Tally) : Prop where
  length : kept.1.ledger.length = kept.2.length
  places : ∀ place ∈ kept.2, place < plan.rules.length

theorem Tallied.append {kept : Staging × Tally} (h : plan.Tallied kept) {staging : Staging}
    {edits : List Edit} (hledger : staging.ledger = kept.1.ledger ++ edits) {scope : Granularity}
    {rules : List (Rule × Nat)} (hrules : ∀ placed ∈ rules, placed ∈ plan.rulesFor scope)
    (hlength : edits.length = rules.length) :
    plan.Tallied (staging, kept.2 ++ rules.map Prod.snd) where
  length := by
    rw [hledger, List.length_append, List.length_append, h.length, List.length_map, hlength]
  places place hplace := by
    rcases List.mem_append.mp hplace with hplace | hplace
    · exact h.places place hplace
    · obtain ⟨placed, hplaced, rfl⟩ := List.mem_map.mp hplace
      exact List.snd_lt_of_mem_zipIdx (List.mem_filter.mp (hrules placed hplaced)).1

theorem tallied_fileScript (view : FileView) {kept : Staging × Tally} (h : plan.Tallied kept) :
    plan.Tallied
      (((fileScript (plan.rulesFor .wholeFile) kept.2).run view.perform).after kept) := by
  have hverdict : ∀ request ∈ view.requests ((plan.rulesFor .wholeFile).map fun placed =>
      fileCall placed.1), request.verdict = .wholeFile := by
    intro request hr
    obtain ⟨call, -, rfl⟩ := List.mem_map.mp hr
    exact view.verdict_request call
  rw [Action.after_of_ok (run_fileScript view (plan.rulesFor .wholeFile) kept.1 kept.2 kept.2),
    Staging.stageAll_wholeFile hverdict]
  refine h.append rfl (fun placed hplaced => hplaced) ?_
  rw [List.length_map, FileView.requests, List.length_map, List.length_map]

theorem tallied_lineScript {view : LineView} (hnumber : 1 ≤ view.line.number)
    {kept : Staging × Tally} (h : plan.Tallied kept) :
    plan.Tallied
      (((lineScript view.line (plan.rulesFor .line) kept.2).run view.perform).after kept) := by
  rw [Action.after_of_ok (run_lineScript hnumber (plan.rulesFor .line) kept.1 kept.2 kept.2)]
  refine h.append (Staging.ledger_stageAll_requests hnumber _ _)
    (fun placed hplaced => (List.mem_filter.mp hplaced).1) ?_
  rw [filter_requests_lineCalls, Edit.length_chain, List.length_map]

theorem keeps_passes_tallied (access : Access σ) (plan : Plan) (files : List Path) :
    (plan.passes access files).Keeps fun state => plan.Tallied (state.staging, state.memo) := by
  refine Action.keeps_bind (keeps_runPass _ ?_) fun _ => keeps_runPass _ ?_
  · refine Session.keeps_pass_kept fun file hf content view hv kept hk => ?_
    exact tallied_fileScript view hk
  · refine Session.keeps_pass_kept fun file hf content view hv kept hk => ?_
    exact tallied_lineScript (LineView.one_le_number_of_mem hv) hk

/-- The counts of the rules add up to the length of a tally that names no other places. -/
theorem sum_ruleCounts {tally : Tally} (h : ∀ place ∈ tally, place < plan.rules.length) :
    ((plan.ruleCounts tally).map Prod.snd).sum = tally.length := by
  have hcounts : (plan.ruleCounts tally).map Prod.snd = plan.rules.zipIdx.map fun placed =>
      tally.countP fun place => place == placed.2 := by
    rw [ruleCounts, List.map_map]
    rfl
  rw [hcounts]
  refine sum_countP (fun place (placed : Rule × Nat) => place == placed.2) fun place hplace => ?_
  -- A place in the tally is that of one rule.
  have hmem : place ∈ plan.rules.zipIdx.map Prod.snd := by
    rw [List.zipIdx_map_snd, List.mem_range'_1]
    exact ⟨Nat.zero_le _, (Nat.zero_add _).symm ▸ h place hplace⟩
  rw [← List.count_eq_one_of_mem (List.nodup_zipIdx_map_snd plan.rules) hmem, List.count,
    List.countP_map]
  exact List.countP_congr fun placed _ => by rw [Function.comp, beq_iff_eq, beq_iff_eq, eq_comm]

/-- The counts of the rules come to the number of edits. -/
theorem sum_counts_of_stage {access : Access σ} {store later : σ} {staged : Staged}
    (h : plan.stage access store = .ok staged later) :
    (staged.counts.map Prod.snd).sum = staged.session.staging.ledger.length := by
  obtain ⟨session, opened, state, hopen, hpasses, rfl, -⟩ := plan.exists_passes_of_stage h
  have hstart : plan.Tallied (session.staging, []) := by
    rw [Session.staging_of_ofPatterns hopen]
    exact ⟨rfl, fun _ h => nomatch h⟩
  have hend := keeps_passes_tallied access plan session.files ⟨opened, session.staging, []⟩ hstart
  rw [Action.after_of_ok hpasses] at hend
  exact (sum_ruleCounts hend.places).trans hend.length.symm

theorem keeps_passes_names (access : Access σ) (plan : Plan) (files : List Path) :
    (plan.passes access files).Keeps fun state => state.staging.Names files :=
  Action.keeps_bind (keeps_runPass _ (Session.keeps_filePass_names access _)) fun _ =>
    keeps_runPass _ (Session.keeps_linePass_names access _)

open MemoryStore (access)

/-- The edits of a session on files in memory are for its files, and its reports account for all of them,
whatever passes have been made and whatever failed in them. If a plan was staged, the counts of its rules
come to the same number. -/
theorem edits_accounted (store : MemoryStore) :
    (∀ {β : Type} {patterns : List Text} {session : Session} {opened : MemoryStore},
      Session.ofPatterns access patterns store = .ok session opened →
      ∀ (moves : List (Session.Move β)) (memo : β), Session.Accounted
        ⟨session.files, (session.playAll moves (session.start opened memo)).staging⟩) ∧
    ∀ {plan : Plan} {staged : Staged} {later : MemoryStore},
      plan.stage access store = .ok staged later →
      (staged.counts.map Prod.snd).sum = staged.session.staging.ledger.length ∧
      staged.session.Accounted ∧
      ∀ {β : Type} (moves : List (Session.Move β)) (memo : β), Session.Accounted
        ⟨staged.session.files,
          (staged.session.playAll moves (staged.session.start later memo)).staging⟩ := by
  constructor
  · intro β patterns session opened hopen moves memo
    obtain ⟨-, hempty, hd⟩ := Session.ofPatterns_ok hopen
    have hstart : (session.start opened memo).staging.Names session.files := by
      rw [Session.start, hempty]
      exact fun _ h => nomatch h
    exact Session.accounted_of_named hd (Session.names_playAll moves hstart)
  · intro plan staged later hstage
    obtain ⟨session, opened, state, hopen, hpasses, rfl, -⟩ := plan.exists_passes_of_stage hstage
    obtain ⟨-, hempty, hd⟩ := Session.ofPatterns_ok hopen
    have hnames : state.staging.Names session.files := by
      have hend := keeps_passes_names access plan session.files ⟨opened, session.staging, []⟩
      rw [Action.after_of_ok hpasses, hempty] at hend
      exact hend fun _ h => nomatch h
    refine ⟨sum_counts_of_stage hstage, Session.accounted_of_named hd hnames, fun moves memo => ?_⟩
    exact Session.accounted_of_named hd (Session.names_playAll moves hnames)

/-- A plan with two rules for lines, one of which starts from what the other makes of a line, and a session
on the same files with a pass that fails at the second file. -/
theorem edits_accounted_in_plan_and_failed_pass :
    let a : Path := ⟨['a']⟩
    let b : Path := ⟨['b']⟩
    let store := (MemoryStore.empty.set a ['x', '\n', 'x', 'y']).set b []
    let plan : Plan := ⟨[], none, [['*']],
      [⟨['d'], .line, .every, some ['x'], ['x', 'x'], none, none⟩,
        ⟨['l'], .line, .wholeLine, none, ['z'], none, some ['y']⟩]⟩
    let ledger : Ledger := [⟨a, .line 1, .every, ['x'], ['x', 'x']⟩,
      ⟨a, .line 2, .every, ['x', 'y'], ['x', 'x', 'y']⟩,
      ⟨a, .line 2, .wholeLine, ['x', 'x', 'y'], ['z']⟩]
    let planned : Session := ⟨[a, b], ⟨ledger, [⟨a, 1, ['x', 'x']⟩, ⟨a, 2, ['z']⟩]⟩⟩
    let session : Session := ⟨[a, b], .empty⟩
    let moves : List (Session.Move Unit) :=
      [.filePass fun view memo => .call ⟨['x'], ['w'], true⟩ fun _ =>
        if view.content.isEmpty then .fail (.mixedGranularity view.file) memo else .done memo]
    let state := session.playAll moves (session.start store ())
    Session.ofPatterns access [['*']] store = .ok session store ∧
    (∃ report after, Session.commit access ⟨session.files, state.staging⟩ store = .ok report after ∧
      report.totalEdits = 2) ∧
    plan.stage access store = .ok ⟨planned, [(['d'], 2), (['l'], 1)]⟩ store ∧
    ∃ report after, planned.commit access store = .ok report after ∧ report.totalEdits = 2 + 1 ∧
      List.Forall₂ (Outcome.Counts ledger) [a, b] report.files := by
  intro a b store plan ledger planned session moves state
  have hopen : Session.ofPatterns access [['*']] store = .ok session store := rfl
  have hstage : plan.stage access store = .ok ⟨planned, [(['d'], 2), (['l'], 1)]⟩ store := rfl
  obtain ⟨hmoves, hplan⟩ := edits_accounted store
  obtain ⟨report, after, hcommit⟩ : ∃ report after,
      Session.commit access ⟨session.files, state.staging⟩ store = .ok report after := ⟨_, _, rfl⟩
  obtain ⟨written, later, hwritten⟩ : ∃ written later,
      planned.commit access store = .ok written later := ⟨_, _, rfl⟩
  obtain ⟨hsum, haccounted, -⟩ := hplan hstage
  obtain ⟨hcounts, htotal⟩ := haccounted.commit hwritten
  exact ⟨hopen, ⟨report, after, hcommit, ((hmoves hopen moves ()).commit hcommit).total⟩, hstage,
    written, later, hwritten, htotal.trans hsum.symm, hcounts⟩

end Plan

end BulkEdit
