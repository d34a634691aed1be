import BulkEdit.Proofs.Edit.Resolution
import BulkEdit.Proofs.Session.Keeping
import BulkEdit.Proofs.Session.Moves
import BulkEdit.Proofs.Session.Passes
import Mathlib.Algebra.GroupWithZero.Nat
import Mathlib.Data.List.Pairwise

/-!
# Every edit is reported once

A pass stages edits for the files of its session only. As these differ, every edit in the ledger belongs
to one of them, and the reports of previews and commits, which tell for each file how many edits it has,
come to the length of the ledger.
-/

namespace BulkEdit

variable {σ α β κ ρ ν : Type}

/-- Where each item belongs to one key, the counts under all keys come to the number of items. -/
theorem sum_countP {keys : List κ} (belongs : α → κ → Bool) {items : List α}
    (h : ∀ item ∈ items, keys.countP (belongs item) = 1) :
    (keys.map fun key => items.countP (belongs · key)).sum = items.length := by
  -- One more item adds one to the count under its own key and nothing under the others.
  have hstep : ∀ (keys : List κ) (item : α) (rest : List α),
      (keys.map fun key => (item :: rest).countP (belongs · key)).sum =
        keys.countP (belongs item) + (keys.map fun key => rest.countP (belongs · key)).sum := by
    intro keys item rest
    induction keys with
    | nil => rfl
    | cons key others ih =>
      rw [List.map_cons, List.sum_cons, ih, List.map_cons, List.sum_cons, List.countP_cons,
        List.countP_cons]
      omega
  induction items with
  | nil =>
    simp only [List.countP_nil, List.length_nil]
    simp
  | cons item rest ih =>
    obtain ⟨hitem, hrest⟩ := List.forall_mem_cons.mp h
    rw [hstep, hitem, ih hrest, List.length_cons, Nat.add_comm]

namespace Ledger

theorem sum_length_ofFile {ledger : Ledger} {files : List Path} (hd : Path.Distinct files)
    (h : ∀ edit ∈ ledger, edit.file ∈ files) :
    (files.map fun file => (ledger.ofFile file).length).sum = ledger.length := by
  simp only [ofFile, ← List.countP_eq_length_filter]
  refine sum_countP (fun (edit : Edit) file => decide (edit.file.Same file)) fun edit he => ?_
  have hown : decide (edit.file.Same edit.file) = true := decide_eq_true (Path.same_refl _)
  have halone : ∀ other ∈ files, decide (edit.file.Same other) = true → other = edit.file := by
    intro other ho hs
    by_contra hne
    have : Std.Symm fun p q : Path => ¬ p.Same q := ⟨fun _ _ hpq hqp => hpq hqp.symm⟩
    exact hd.forall (h edit he) ho (Ne.symm hne) (of_decide_eq_true hs)
  rw [List.countP_eq_length_filter,
    Path.filter_eq_singleton hd.nodup (h edit he) hown halone, List.length_singleton]

end Ledger

/-- That an outcome tells how many edits a file has. -/
structure Outcome.Counts (ledger : Ledger) (path : Path) (outcome : Outcome) : Prop where
  file : outcome.file = path
  edits : outcome.edits = (ledger.ofFile path).length
  granularity : outcome.granularity = none ↔ outcome.edits = 0

theorem Ledger.counts_outcome (ledger : Ledger) (file : Path) (content : Text) :
    (ledger.outcome file content).Counts ledger file where
  file := rfl
  edits := rfl
  granularity := by
    rw [outcome, Option.map_eq_none_iff, List.head?_eq_none_iff]
    exact List.length_eq_zero_iff.symm

/-- That a report has one outcome for each file of a session, in order, and counts each edit once. -/
structure Report.Accounts (session : Session) (report : Report) : Prop where
  outcomes : List.Forall₂ (Outcome.Counts session.staging.ledger) session.files report.files
  total : report.totalEdits = session.staging.ledger.length

theorem Outcome.map_file_of_counts {ledger : Ledger} {files : List Path} {outcomes : List Outcome}
    (h : List.Forall₂ (Outcome.Counts ledger) files outcomes) : outcomes.map Outcome.file = files := by
  induction h with
  | nil => rfl
  | cons hcounts _ ih => rw [List.map_cons, hcounts.file, ih]

theorem Report.totalEdits_eq {ledger : Ledger} {files : List Path} {outcomes : List Outcome}
    (h : List.Forall₂ (Outcome.Counts ledger) files outcomes) :
    totalEdits ⟨outcomes⟩ = (files.map fun file => (ledger.ofFile file).length).sum := by
  induction h with
  | nil => rfl
  | cons hcounts _ ih =>
    rw [List.map_cons, List.sum_cons, ← hcounts.edits, ← ih]
    rfl

namespace Session

variable {access : Access σ} {ledger : Ledger}

/-- What a file that is resolved was read as and became. -/
theorem resolve_ok {file : Path} {store later : σ} {resolved : Outcome × Text}
    (h : resolve access ledger file store = .ok resolved later) :
    ∃ content, access.read file store = .ok content later ∧
      resolved = (ledger.outcome file content, ledger.replayed file content) := by
  obtain ⟨content, between, hread, hresolve⟩ := bind_ok h
  rw [Ledger.resolve_eq] at hresolve
  by_cases hmixed : ledger.isMixed file = true
  · rw [if_pos hmixed] at hresolve
    cases hresolve
  · rw [if_neg hmixed] at hresolve
    cases hresolve
    exact ⟨content, hread, rfl⟩

theorem counts_of_resolve {file : Path} {store later : σ} {resolved : Outcome × Text}
    (h : resolve access ledger file store = .ok resolved later) :
    resolved.1.Counts ledger file := by
  obtain ⟨content, -, rfl⟩ := resolve_ok h
  exact ledger.counts_outcome file content

theorem counts_of_previewFiles {files : List Path} {store later : σ} {outcomes : List Outcome}
    (h : previewFiles access ledger files store = .ok outcomes later) :
    List.Forall₂ (Outcome.Counts ledger) files outcomes := by
  induction files generalizing store outcomes with
  | nil =>
    cases h
    exact .nil
  | cons file rest ih =>
    obtain ⟨resolved, between, hresolve, h⟩ := bind_ok h
    obtain ⟨others, after, hothers, h⟩ := bind_ok h
    cases h
    obtain ⟨hfile, hedits, hgranularity⟩ := counts_of_resolve hresolve
    exact .cons ⟨hfile, hedits, hgranularity⟩ (ih hothers)

theorem counts_of_commitFiles {files : List Path} {store later : σ} {outcomes : List Outcome}
    (h : commitFiles access ledger files store = .ok outcomes later) :
    List.Forall₂ (Outcome.Counts ledger) files outcomes := by
  induction files generalizing store outcomes with
  | nil =>
    cases h
    exact .nil
  | cons file rest ih =>
    obtain ⟨resolved, between, hresolve, h⟩ := bind_ok h
    obtain ⟨_, written, -, h⟩ := bind_ok h
    obtain ⟨others, after, hothers, h⟩ := bind_ok h
    cases h
    exact .cons (counts_of_resolve hresolve) (ih hothers)

/-- That all edits of a session are for its files, and that its reports account for all of them, whatever
becomes of the store in between. -/
structure Accounted (session : Session) : Prop where
  named : ∀ edit ∈ session.staging.ledger, edit.file ∈ session.files
  preview : ∀ {σ : Type} {access : Access σ} {store later : σ} {report : Report},
    session.preview access store = .ok report later → report.Accounts session
  commit : ∀ {σ : Type} {access : Access σ} {store later : σ} {report : Report},
    session.commit access store = .ok report later → report.Accounts session

theorem accounted_of_named {session : Session} (hd : Path.Distinct session.files)
    (hnamed : ∀ edit ∈ session.staging.ledger, edit.file ∈ session.files) : session.Accounted := by
  have htotal : ∀ {report : Report},
      List.Forall₂ (Outcome.Counts session.staging.ledger) session.files report.files →
      report.Accounts session := fun hcounts =>
    ⟨hcounts, (Report.totalEdits_eq hcounts).trans (Ledger.sum_length_ofFile hd hnamed)⟩
  refine ⟨hnamed, fun hpreview => ?_, fun hcommit => ?_⟩
  · obtain ⟨files, between, hfiles, h⟩ := bind_ok hpreview
    cases h
    exact htotal (counts_of_previewFiles hfiles)
  · obtain ⟨files, between, hfiles, h⟩ := bind_ok hcommit
    cases h
    exact htotal (counts_of_commitFiles hfiles)

end Session

section Passes

variable {P : Staging → Prop} {Q : Staging × β → Prop}

/-- What every call keeps, a script keeps. -/
theorem Script.keeps_run {perform : κ → Action Staging ρ} (h : ∀ input, (perform input).Keeps P)
    (script : Script κ ρ β) : (script.run perform).Keeps fun kept => P kept.1 := by
  induction script with
  | done memo => exact fun _ hs => hs
  | fail failure memo => exact fun _ hs => hs
  | call input next ih =>
    rintro ⟨staging, memo⟩ hs
    have hafter := h input staging hs
    cases hperform : perform input staging with
    | error failure later =>
      rw [Action.after_of_error hperform] at hafter
      simpa only [Action.after, run, hperform] using hafter
    | ok reply later =>
      rw [Action.after_of_ok hperform] at hafter
      simpa only [Action.after, run, hperform] using ih reply (later, memo) hafter

namespace Session

theorem keeps_visitAll {perform : ν → κ → Action Staging ρ} {visit : ν → β → Script κ ρ β}
    {views : List ν}
    (h : ∀ view ∈ views, ∀ kept, Q kept → Q (((visit view kept.2).run (perform view)).after kept)) :
    (visitAll perform visit views).Keeps Q := by
  induction views with
  | nil => exact Action.keeps_pure _
  | cons view rest ih =>
    obtain ⟨hview, hrest⟩ := List.forall_mem_cons.mp h
    intro kept hk
    have hafter := hview kept hk
    cases hrun : (visit view kept.2).run (perform view) kept with
    | error failure kept =>
      rw [Action.after_of_error hrun] at hafter
      simpa only [Action.after, visitAll, hrun] using hafter
    | ok _ kept =>
      rw [Action.after_of_ok hrun] at hafter
      simpa only [Action.after, visitAll, hrun] using ih hrest kept hafter

/-- What every visit keeps of the edits and the memo, a pass keeps. -/
theorem keeps_pass_kept {access : Access σ} {views : Path → Text → List ν}
    {perform : ν → κ → Action Staging ρ} {visit : ν → β → Script κ ρ β} {files : List Path}
    (h : ∀ file ∈ files, ∀ content, ∀ view ∈ views file content, ∀ kept, Q kept →
      Q (((visit view kept.2).run (perform view)).after kept)) :
    (pass access views perform visit files).Keeps fun state => Q (state.staging, state.memo) := by
  induction files with
  | nil => exact Action.keeps_pure _
  | cons file rest ih =>
    obtain ⟨hfile, hrest⟩ := List.forall_mem_cons.mp h
    intro state hs
    cases hread : access.read file state.store with
    | error failure store => simpa only [Action.after, pass, hread] using hs
    | ok content store =>
      have hafter := keeps_visitAll (hfile content) (state.staging, state.memo) hs
      cases hvisit : visitAll perform visit (views file content) (state.staging, state.memo) with
      | error failure kept =>
        rw [Action.after_of_error hvisit] at hafter
        simpa only [Action.after, pass, hread, hvisit] using hafter
      | ok _ kept =>
        rw [Action.after_of_ok hvisit] at hafter
        simpa only [Action.after, pass, hread, hvisit] using
          ih hrest ⟨store, kept.1, kept.2⟩ hafter

end Session

end Passes

/-- That all edits are for some files. -/
def Staging.Names (files : List Path) (staging : Staging) : Prop :=
  ∀ edit ∈ staging.ledger, edit.file ∈ files

section Names

variable {files : List Path}

theorem Staging.keeps_stage_names {request : Request} (h : request.file ∈ files) :
    (stage request).Keeps (Names files) := by
  intro staging hs
  have happend : ∀ edit : Edit, edit.file = request.file →
      ∀ other ∈ staging.ledger ++ [edit], other.file ∈ files := by
    intro edit he other ho
    rcases List.mem_append.mp ho with ho | ho
    · exact hs other ho
    · rw [List.mem_singleton.mp ho, he]
      exact h
  rw [after_stage]
  cases request.verdict with
  | refused fault => exact hs
  | idle => exact hs
  | wholeFile => exact happend _ rfl
  | line text number => exact happend _ rfl

theorem FileView.keeps_perform_names {view : FileView} (h : view.file ∈ files) (call : FileCall) :
    (view.perform call).Keeps (Staging.Names files) := by
  have hfile : (view.request call).file ∈ files := h
  exact Action.keeps_bind (Staging.keeps_stage_names hfile) fun _ => Action.keeps_pure ()

theorem LineView.keeps_perform_names {view : LineView} (h : view.file ∈ files) (call : LineCall) :
    (view.perform call).Keeps (Staging.Names files) :=
  Staging.keeps_stage_names (view.file_request call ▸ h)

namespace Session

variable (access : Access σ)

theorem keeps_filePass_names (visit : FileView → β → Script FileCall Unit β) :
    (filePass access visit files).Keeps fun state => state.staging.Names files := by
  refine keeps_pass_kept (Q := fun kept => kept.1.Names files) fun file hf content view hv kept => ?_
  obtain rfl := List.mem_singleton.mp hv
  exact Script.keeps_run (FileView.keeps_perform_names hf) _ kept

theorem keeps_linePass_names (visit : LineView → β → Script LineCall Bool β) :
    (linePass access visit files).Keeps fun state => state.staging.Names files := by
  refine keeps_pass_kept (Q := fun kept => kept.1.Names files) fun file hf content view hv kept => ?_
  have hfile : view.file = file := LineView.file_of_mem hv
  exact Script.keeps_run (LineView.keeps_perform_names (hfile ▸ hf)) _ kept

open MemoryStore (access)

/-- Moves stage edits for the files of the session only. -/
theorem names_playAll {session : Session} (moves : List (Move β)) {state : PassState MemoryStore β}
    (h : state.staging.Names session.files) :
    (session.playAll moves state).staging.Names session.files := by
  refine List.foldlRecOn (motive := fun state => state.staging.Names session.files) moves
    (Move.play session.files) h fun state hs move _ => ?_
  cases move with
  | filePass visit => exact keeps_filePass_names access visit state hs
  | linePass visit => exact keeps_linePass_names access visit state hs
  | preview => exact hs
  | set file text => exact hs

end Session

end Names

end BulkEdit
