import BulkEdit.Proofs.Access.Faithful
import BulkEdit.Proofs.Edit.Requests
import BulkEdit.Proofs.Edit.Resolution
import BulkEdit.Proofs.Path.Distinct
import BulkEdit.Session.Basic
import Mathlib.Data.List.Pairwise

/-!
# Previews and commits on faithful accesses

Where a store is read and written as it should be, a commit fails exactly as a preview does, for the same
file. If it succeeds then each file holds what the edits of all listed paths that lead to it make of it,
one path after the other. Where no two listed paths lead to one file, that is what the preview reported.
-/

namespace BulkEdit

variable {σ : Type}

/-- The text that a read gives, if it gives one. -/
def readText (content : Except Failure Text) : Text := content.toOption.getD []

namespace Ledger

/-- What keeps a file that reads like this from being resolved. -/
def fault? (ledger : Ledger) (file : Path) (content : Except Failure Text) : Option Failure :=
  match content with
  | .error failure => some failure
  | .ok _ => if ledger.isMixed file then some (.mixedGranularity file) else none

theorem exists_content_of_fault? {ledger : Ledger} {file : Path} {content : Except Failure Text}
    (h : ledger.fault? file content = none) : ∃ text, content = .ok text := by
  cases content with
  | error failure => cases h
  | ok text => exact ⟨text, rfl⟩

/-- What a preview reports of a file that reads like this. -/
def foretold (ledger : Ledger) (file : Path) (content : Except Failure Text) : Outcome :=
  { ledger.outcome file (readText content) with
    content := some (ledger.replayed file (readText content)) }

/-- The text after the edits of several paths, one path after the other. -/
def replayedInTurn (ledger : Ledger) (files : List Path) (text : Text) : Text :=
  files.foldl (fun text file => ledger.replayed file text) text

end Ledger

namespace Session

variable {access : Access σ} {contents : σ → Path → Except Failure Text}
  {same : Path → Path → Prop} {reached : σ → Prop} {store : σ}

theorem resolve_of_faithful (h : access.Faithful contents same reached) (ledger : Ledger)
    (file : Path) (hs : reached store) :
    ∃ after, reached after ∧ contents after = contents store ∧
      resolve access ledger file store =
        match ledger.fault? file (contents store file) with
        | some failure => .error failure after
        | none => .ok (ledger.outcome file (readText (contents store file)),
            ledger.replayed file (readText (contents store file))) after := by
  obtain ⟨after, hafter, hcontents, hread⟩ := h.read hs file
  refine ⟨after, hafter, hcontents, ?_⟩
  simp only [resolve, bind, EStateM.bind, hread]
  cases hc : contents store file with
  | error failure => rfl
  | ok content =>
    simp only [Action.settled, Ledger.resolve_eq, Ledger.fault?]
    by_cases hm : ledger.isMixed file = true
    · rw [if_pos hm, if_pos hm]
      rfl
    · rw [if_neg hm, if_neg hm]
      rfl

/-- The first failure that the files come to, as they read now. -/
def firstFault? (ledger : Ledger) (files : List Path) (contents : Path → Except Failure Text) :
    Option Failure :=
  files.findSome? fun file => ledger.fault? file (contents file)

theorem firstFault?_cons (ledger : Ledger) (file : Path) (rest : List Path)
    (contents : Path → Except Failure Text) :
    firstFault? ledger (file :: rest) contents =
      match ledger.fault? file (contents file) with
      | some failure => some failure
      | none => firstFault? ledger rest contents := by
  rw [firstFault?, List.findSome?_cons]
  cases ledger.fault? file (contents file) <;> rfl

theorem previewFiles_of_faithful (h : access.Faithful contents same reached) (ledger : Ledger)
    (files : List Path) (hs : reached store) :
    ∃ after, reached after ∧ contents after = contents store ∧
      previewFiles access ledger files store =
        match firstFault? ledger files (contents store) with
        | some failure => .error failure after
        | none => .ok (files.map fun file => ledger.foretold file (contents store file)) after := by
  induction files generalizing store with
  | nil => exact ⟨store, hs, rfl, rfl⟩
  | cons file rest ih =>
    obtain ⟨between, hbetween, hkept, hresolve⟩ := resolve_of_faithful h ledger file hs
    rw [firstFault?_cons]
    cases hf : ledger.fault? file (contents store file) with
    | some failure =>
      rw [hf] at hresolve
      refine ⟨between, hbetween, hkept, ?_⟩
      simp only [previewFiles, bind, EStateM.bind, hresolve]
    | none =>
      rw [hf] at hresolve
      obtain ⟨after, hafter, hcontents, hrest⟩ := ih hbetween
      refine ⟨after, hafter, hcontents.trans hkept, ?_⟩
      rw [hkept] at hrest
      simp only [previewFiles, bind, EStateM.bind, hresolve, hrest]
      cases firstFault? ledger rest (contents store) <;> rfl

/-- The contents after a file has been written, which every path reads that leads to it. -/
structure Rewritten (same : Path → Path → Prop) (file : Path) (text : Text)
    (before after : Path → Except Failure Text) : Prop where
  own : ∀ other, same file other → after other = .ok text
  others : ∀ other, ¬ same file other → after other = before other

/-- A file that nothing stops is written before the others are looked at. -/
theorem commitFiles_cons_of_faithful (h : access.Faithful contents same reached) {ledger : Ledger}
    {file : Path} (rest : List Path) (hs : reached store)
    (hf : ledger.fault? file (contents store file) = none) :
    ∃ content written, contents store file = .ok content ∧ reached written ∧
      Rewritten same file (ledger.replayed file content) (contents store) (contents written) ∧
      commitFiles access ledger (file :: rest) store =
        match commitFiles access ledger rest written with
        | .error failure after => .error failure after
        | .ok others after => .ok (ledger.outcome file content :: others) after := by
  obtain ⟨content, hcontent⟩ := Ledger.exists_content_of_fault? hf
  obtain ⟨between, hbetween, hread, hresolve⟩ := resolve_of_faithful h ledger file hs
  rw [hf, hcontent] at hresolve
  rw [← hread] at hcontent ⊢
  obtain ⟨written, hwritten, hwrite, hset, hkept⟩ :=
    h.write hbetween hcontent (ledger.replayed file content)
  refine ⟨content, written, hcontent, hwritten, ⟨hset, hkept⟩, ?_⟩
  simp only [commitFiles, bind, EStateM.bind, hresolve, readText, Except.toOption,
    Option.getD_some, hwrite]
  cases commitFiles access ledger rest written <;> rfl

/-- A write does not change whether and why other paths fail, even those that lead to the same file. -/
theorem firstFault?_of_rewritten (h : access.Faithful contents same reached) (hs : reached store)
    {file : Path} {content text : Text} {after : Path → Except Failure Text}
    (hcontent : contents store file = .ok content)
    (hset : Rewritten same file text (contents store) after)
    (ledger : Ledger) (files : List Path) :
    firstFault? ledger files after = firstFault? ledger files (contents store) := by
  refine congrArg (List.findSome? · files) (funext fun other => ?_)
  by_cases hsame : same file other
  · rw [hset.own other hsame, h.shared hs hsame hcontent]
    rfl
  · rw [hset.others other hsame]

variable [DecidableRel same]

/-- What the edits of one more path make of the contents, if it comes first. -/
theorem replayedInTurn_of_rewritten (h : access.Faithful contents same reached) (hs : reached store)
    {ledger : Ledger} {file : Path} {content : Text} {after : Path → Except Failure Text}
    (hcontent : contents store file = .ok content)
    (hset : Rewritten same file (ledger.replayed file content) (contents store) after)
    (rest : List Path) {path : Path} {text : Text} (htext : contents store path = .ok text) :
    ∃ next, after path = .ok next ∧
      ledger.replayedInTurn (rest.filter fun other => same other path) next =
        ledger.replayedInTurn ((file :: rest).filter fun other => same other path) text := by
  rw [List.filter_cons]
  by_cases hsame : same file path
  · have hshared := h.shared hs hsame hcontent
    rw [htext] at hshared
    cases hshared
    rw [if_pos (decide_eq_true hsame)]
    exact ⟨_, hset.own path hsame, rfl⟩
  · rw [if_neg (by simpa using hsame)]
    exact ⟨text, (hset.others path hsame).trans htext, rfl⟩

/-- A commit by the contents that it starts from. What it writes for one path is read for every later
path that leads to the same file. -/
theorem commitFiles_of_faithful (h : access.Faithful contents same reached) (ledger : Ledger)
    (files : List Path) (hs : reached store) :
    ∃ after, reached after ∧
      match firstFault? ledger files (contents store) with
      | some failure => commitFiles access ledger files store = .error failure after
      | none =>
        (∃ outcomes, commitFiles access ledger files store = .ok outcomes after ∧
          (files.Pairwise (fun p q => ¬ same p q) → outcomes =
            files.map fun file => ledger.outcome file (readText (contents store file)))) ∧
        ∀ path content, contents store path = .ok content → contents after path =
          .ok (ledger.replayedInTurn (files.filter fun file => same file path) content) := by
  induction files generalizing store with
  | nil => exact ⟨store, hs, ⟨[], rfl, fun _ => rfl⟩, fun _ _ hc => hc⟩
  | cons file rest ih =>
    rw [firstFault?_cons]
    cases hf : ledger.fault? file (contents store file) with
    | some failure =>
      obtain ⟨between, hbetween, -, hresolve⟩ := resolve_of_faithful h ledger file hs
      rw [hf] at hresolve
      refine ⟨between, hbetween, ?_⟩
      simp only [commitFiles, bind, EStateM.bind, hresolve]
    | none =>
      obtain ⟨content, written, hcontent, hwritten, hset, hrun⟩ :=
        commitFiles_cons_of_faithful h rest hs hf
      obtain ⟨after, hafter, hrest⟩ := ih hwritten
      rw [firstFault?_of_rewritten h hs hcontent hset] at hrest
      refine ⟨after, hafter, ?_⟩
      dsimp only
      cases hfault : firstFault? ledger rest (contents store) with
      | some failure =>
        rw [hfault] at hrest
        simp only [hrun, hrest]
      | none =>
        rw [hfault] at hrest
        obtain ⟨⟨outcomes, hok, houtcomes⟩, hreads⟩ := hrest
        refine ⟨⟨ledger.outcome file content :: outcomes, by simp only [hrun, hok], ?_⟩, ?_⟩
        · intro hd
          obtain ⟨hne, hdrest⟩ := List.pairwise_cons.mp hd
          rw [houtcomes hdrest, List.map_cons, hcontent]
          refine congrArg _ (List.map_congr_left fun other ho => ?_)
          rw [hset.others other (hne other ho)]
        · intro path text htext
          obtain ⟨next, hnext, hturn⟩ := replayedInTurn_of_rewritten h hs hcontent hset rest htext
          rw [hreads path next hnext, hturn]

/-- That a preview foretold a commit: both failed with the same failure, or the reports differ in the
contents alone, which are what is read of the files after the commit. -/
inductive Foretold (access : Access σ) (files : List Path) :
    EStateM.Result Failure σ Report → EStateM.Result Failure σ Report → Prop where
  | failed (failure : Failure) (before after : σ) :
      Foretold access files (.error failure before) (.error failure after)
  | succeeded {foretold report : Report} {after : σ} (before : σ)
      (hreports : report.files = foretold.files.map fun outcome => { outcome with content := none })
      (hfiles : foretold.files.map Outcome.file = files)
      (hcontents : ∀ outcome ∈ foretold.files, ∃ text later, outcome.content = some text ∧
        access.read outcome.file after = .ok text later) :
      Foretold access files (.ok foretold before) (.ok report after)

/-- Where no two listed paths lead to one file, a listed path is the only one that leads to its file. -/
theorem filter_same_of_pairwise (h : access.Faithful contents same reached) {files : List Path}
    (hd : files.Pairwise fun p q => ¬ same p q) (hself : ∀ file ∈ files, same file file) {file : Path}
    (hf : file ∈ files) : (files.filter fun other => same other file) = [file] := by
  have hn : files.Nodup := hd.imp_of_mem fun hp _ hne he => hne (he ▸ hself _ hp)
  refine Path.filter_eq_singleton hn hf (decide_eq_true (hself file hf)) fun other ho hs => ?_
  by_contra hne
  have : Std.Symm fun p q => ¬ same p q := ⟨fun _ _ hpq hqp => hpq (h.same_symm hqp)⟩
  exact hd.forall ho hf hne (of_decide_eq_true hs)

/-- The preview and the commit after it, by the contents that they start from. -/
theorem preview_then_commit (h : access.Faithful contents same reached) (session : Session)
    (hs : reached store) :
    ∃ between after, reached after ∧ contents between = contents store ∧
      match firstFault? session.staging.ledger session.files (contents store) with
      | some failure => session.preview access store = .error failure between ∧
          session.commit access between = .error failure after
      | none =>
        session.preview access store = .ok ⟨session.files.map fun file =>
          session.staging.ledger.foretold file (contents store file)⟩ between ∧
        (∃ outcomes, session.commit access between = .ok ⟨outcomes⟩ after ∧
          (session.files.Pairwise (fun p q => ¬ same p q) → outcomes = session.files.map fun file =>
            session.staging.ledger.outcome file (readText (contents store file)))) ∧
        ∀ path content, contents store path = .ok content → contents after path =
          .ok (session.staging.ledger.replayedInTurn
            (session.files.filter fun file => same file path) content) := by
  obtain ⟨between, hbetween, hkept, hpreview⟩ :=
    previewFiles_of_faithful h session.staging.ledger session.files hs
  obtain ⟨after, hafter, hcommit⟩ :=
    commitFiles_of_faithful h session.staging.ledger session.files hbetween
  rw [hkept] at hcommit
  refine ⟨between, after, hafter, hkept, ?_⟩
  cases hf : firstFault? session.staging.ledger session.files (contents store) with
  | some failure =>
    rw [hf] at hpreview hcommit
    simp only [preview, commit, bind, EStateM.bind, hpreview, hcommit, and_self]
  | none =>
    rw [hf] at hpreview hcommit
    obtain ⟨⟨outcomes, hok, houtcomes⟩, hcontents⟩ := hcommit
    refine ⟨?_, ⟨outcomes, ?_, houtcomes⟩, hcontents⟩
    · simp only [preview, bind, EStateM.bind, hpreview]
      rfl
    · simp only [commit, bind, EStateM.bind, hok]
      rfl

theorem foretold_of_pairwise (h : access.Faithful contents same reached) (session : Session)
    (hd : session.files.Pairwise fun p q => ¬ same p q) (hs : reached store) :
    Foretold access session.files (session.preview access store)
      (session.commit access ((session.preview access).after store)) := by
  obtain ⟨between, after, hafter, hkept, hrun⟩ := preview_then_commit h session hs
  cases hf : firstFault? session.staging.ledger session.files (contents store) with
  | some failure =>
    rw [hf] at hrun
    rw [Action.after, hrun.1, hrun.2]
    exact .failed failure between after
  | none =>
    rw [hf] at hrun
    obtain ⟨hpreview, ⟨outcomes, hcommit, houtcomes⟩, hcontents⟩ := hrun
    rw [Action.after, hpreview, hcommit, houtcomes hd]
    refine .succeeded between ?_ ?_ ?_
    · rw [List.map_map]
      rfl
    · rw [List.map_map]
      exact List.map_id _
    · intro outcome ho
      obtain ⟨file, hmem, rfl⟩ := List.mem_map.mp ho
      have hreadable := fun file hfile =>
        Ledger.exists_content_of_fault? (List.findSome?_eq_none_iff.mp hf file hfile)
      have hself : ∀ file ∈ session.files, same file file := fun file hfile =>
        (hreadable file hfile).elim fun _ hc => h.same_self hs hc
      obtain ⟨content, hcontent⟩ := hreadable file hmem
      have hwritten := hcontents file content hcontent
      rw [filter_same_of_pairwise h hd hself hmem] at hwritten
      obtain ⟨later, -, -, hread⟩ := h.read hafter file
      rw [hwritten] at hread
      refine ⟨_, later, rfl, ?_⟩
      rw [hcontent]
      exact hread

end Session

end BulkEdit
