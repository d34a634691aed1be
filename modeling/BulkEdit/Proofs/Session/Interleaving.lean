import BulkEdit.Proofs.Edit.Keys
import BulkEdit.Proofs.Edit.Resolution
import BulkEdit.Proofs.Session.Passes

/-!
# Requests of different keys

Requests with different keys may be staged in any order: each is answered as before, each draft is the
same, and the ledger has the same edits in the same order under every key. Only between the edits of
different keys does the ledger show the order, and a file shows it only between its own edits. One pass
that makes two calls on every line and two passes that make one call each differ no more than that.
-/

namespace BulkEdit

namespace Request

def ofKey (key : Key) (requests : List Request) : List Request :=
  requests.filter fun request => request.key = key

/-- That two lists have the same requests, in the same order as far as they have the same key. -/
def Rearranged (xs ys : List Request) : Prop := ∀ key, ofKey key xs = ofKey key ys

theorem ofKey_eq_nil {key : Key} {requests : List Request}
    (h : key ∉ requests.map Request.key) : ofKey key requests = [] := by
  rw [ofKey, List.filter_eq_nil_iff]
  intro request hr hk
  exact h (List.mem_map.mpr ⟨request, hr, of_decide_eq_true hk⟩)

/-- Keys that do not occur need not be looked at. -/
theorem rearranged_iff {xs ys : List Request} :
    Rearranged xs ys ↔ ∀ key ∈ (xs ++ ys).map Request.key, ofKey key xs = ofKey key ys := by
  refine ⟨fun h key _ => h key, fun h key => ?_⟩
  by_cases hk : key ∈ (xs ++ ys).map Request.key
  · exact h key hk
  · rw [List.map_append, List.mem_append, not_or] at hk
    rw [ofKey_eq_nil hk.1, ofKey_eq_nil hk.2]

instance (xs ys : List Request) : Decidable (Rearranged xs ys) :=
  decidable_of_iff' _ rearranged_iff

/-- What a request is answered, whatever has been staged. -/
def answer (request : Request) : Except Failure Bool :=
  match request.verdict with
  | .refused fault => .error (.invalidRequest request.file fault)
  | .idle => .ok false
  | .wholeFile => .ok true
  | .line _ _ => .ok true

end Request

/-- Lists that agree under every key have the same members. -/
theorem perm_of_filter_key {α κ : Type} [DecidableEq α] [DecidableEq κ] {key : α → κ} {xs ys : List α}
    (h : ∀ k, xs.filter (fun x => key x = k) = ys.filter fun y => key y = k) : xs.Perm ys := by
  rw [List.perm_iff_count]
  intro a
  have hcount : ∀ zs : List α, (zs.filter fun z => key z = key a).count a = zs.count a := by
    intro zs
    rw [List.count_filter]
    exact decide_eq_true rfl
  rw [← hcount xs, ← hcount ys, h (key a)]

theorem Request.Rearranged.perm {xs ys : List Request} (h : Rearranged xs ys) : xs.Perm ys :=
  perm_of_filter_key h

/-- What an action answers, or what it fails with. -/
def Action.answer {σ α : Type} (action : Action σ α) (state : σ) : Except Failure α :=
  match action state with
  | .ok answer _ => .ok answer
  | .error failure _ => .error failure

namespace Staging

/-- The requests, staged in order, each with what it is answered. -/
def transcript : List Request → Staging → List (Request × Except Failure Bool)
  | [], _ => []
  | request :: rest, staging =>
    (request, (stage request).answer staging) :: transcript rest ((stage request).after staging)

theorem answer_stage (request : Request) (staging : Staging) :
    (stage request).answer staging = request.answer := by
  rw [Action.answer, stage_eq, Request.answer]
  cases request.verdict <;> rfl

theorem transcript_eq (requests : List Request) (staging : Staging) :
    transcript requests staging = requests.map fun request => (request, request.answer) := by
  induction requests generalizing staging with
  | nil => rfl
  | cons request rest ih => rw [transcript, answer_stage, ih, List.map_cons]

/-- Under each key, rearranged requests leave the same. -/
theorem only_key_stageAll {xs ys : List Request} (h : Request.Rearranged xs ys) (staging : Staging)
    (key : Key) :
    (stageAll xs staging).only (fun k => k = key) = (stageAll ys staging).only fun k => k = key := by
  rw [only_stageAll, only_stageAll]
  exact congrArg (stageAll · _) (h key)

end Staging

namespace LineView

theorem ofKey_requests (key : Key) (view : LineView) (calls : List LineCall) :
    Request.ofKey key (view.requests calls) = if view.key = key then view.requests calls else [] := by
  rw [Request.ofKey, requests]
  split
  next hk =>
    rw [List.filter_eq_self]
    intro request hr
    obtain ⟨call, -, rfl⟩ := List.mem_map.mp hr
    rw [key_request]
    exact decide_eq_true hk
  next hk =>
    rw [List.filter_eq_nil_iff]
    intro request hr
    obtain ⟨call, -, rfl⟩ := List.mem_map.mp hr
    rw [key_request]
    exact fun h => hk (of_decide_eq_true h)

theorem ofKey_flatMap_eq_nil {key : Key} {views : List LineView}
    (h : ∀ view ∈ views, view.key ≠ key) (calls : LineView → List LineCall) :
    Request.ofKey key (views.flatMap fun view => view.requests (calls view)) = [] := by
  rw [Request.ofKey, List.filter_flatMap, List.flatMap_eq_nil_iff]
  intro view hv
  exact (ofKey_requests key view (calls view)).trans (if_neg (h view hv))

/-- On lines that differ, calls in two rounds are a rearrangement of the calls in one. -/
theorem rearranged_rounds {views : List LineView} (h : views.Pairwise fun v w => v.key ≠ w.key)
    (first second : LineView → List LineCall) :
    Request.Rearranged
      (views.flatMap (fun view => view.requests (first view)) ++
        views.flatMap fun view => view.requests (second view))
      (views.flatMap fun view => view.requests (first view ++ second view)) := by
  intro key
  induction views with
  | nil => rfl
  | cons view rest ih =>
    obtain ⟨hview, hrest⟩ := List.pairwise_cons.mp h
    have hrounds := ih hrest
    have hof := ofKey_requests key view
    simp only [Request.ofKey, List.flatMap_cons, List.filter_append] at hrounds hof ⊢
    rw [hof, hof, hof]
    split
    next hk =>
      -- no other line has this key, so that both rounds give the requests of this line only
      have hnil := ofKey_flatMap_eq_nil fun other ho he => hview other ho (hk.trans he.symm)
      simp only [Request.ofKey] at hnil
      rw [hnil, hnil, hnil, requests, requests, requests, List.map_append]
      simp only [List.append_nil]
    next => simpa only [List.nil_append] using hrounds

end LineView

theorem Ledger.resolve_congr {ledger other : Ledger} {file : Path}
    (h : ledger.ofFile file = other.ofFile file) (content : Text) :
    ledger.resolve file content = other.resolve file content := by
  rw [resolve, resolve, h]

namespace Session

open MemoryStore (access)

theorem only_key_rounds {β : Type} {session : Session} (hd : Path.Distinct session.files)
    (first second : LineView → List LineCall) (state : PassState MemoryStore β) (key : Key) :
    let pass := fun calls : LineView → List LineCall =>
      Move.linePass (β := β) fun view => Script.calls (calls view)
    (session.playAll [pass first, pass second] state).staging.only (fun k => k = key) =
      (session.playAll [pass fun view => first view ++ second view] state).staging.only
        fun k => k = key := by
  intro pass
  have hrounds := LineView.rearranged_rounds (MemoryStore.pairwise_seen_lines hd state.store)
    first second
  simp only [pass, playAll, List.foldl_cons, List.foldl_nil, Move.play, after_linePass_calls]
  rw [← Staging.stageAll_append]
  exact Staging.only_key_stageAll hrounds state.staging key

/-- Rearranged requests get the same answers and leave the same drafts and, under each key, the same
edits. A file for which the order is kept throughout is resolved alike. Two passes that make the one
and the other calls on each line leave under each key what one pass with both leaves. -/
theorem staging_independent_across_keys {xs ys : List Request} (h : Request.Rearranged xs ys)
    (staging : Staging) :
    let run := Staging.stageAll xs staging
    let other := Staging.stageAll ys staging
    let replies := Staging.transcript xs staging
    let others := Staging.transcript ys staging
    (replies.Perm others ∧ ∀ key, replies.filter (fun reply => reply.1.key = key) =
      others.filter fun reply => reply.1.key = key) ∧
    (run.drafts.Perm other.drafts ∧
      ∀ file number, run.drafts.get? file number = other.drafts.get? file number) ∧
    (∀ key, run.ledger.filter (fun edit => edit.key = key) =
      other.ledger.filter fun edit => edit.key = key) ∧
    (∀ file, xs.filter (fun request => request.file.Same file) =
        ys.filter (fun request => request.file.Same file) →
      ∀ content, run.ledger.resolve file content = other.ledger.resolve file content) ∧
    ∀ {β : Type} {store opened : MemoryStore} {patterns : List Text} {session : Session},
      ofPatterns access patterns store = .ok session opened →
      ∀ (first second : LineView → List LineCall) (state : PassState MemoryStore β) (key : Key),
        let pass := fun calls : LineView → List LineCall =>
          Move.linePass (β := β) fun view => Script.calls (calls view)
        (session.playAll [pass first, pass second] state).staging.ledger.filter
            (fun edit => edit.key = key) =
          (session.playAll [pass fun view => first view ++ second view] state).staging.ledger.filter
            fun edit => edit.key = key := by
  intro run other replies others
  have honly := Staging.only_key_stageAll h staging
  have hdrafts : ∀ key, run.drafts.filter (fun draft => draft.key = key) =
      other.drafts.filter fun draft => draft.key = key :=
    fun key => congrArg Staging.drafts (honly key)
  refine ⟨⟨?_, ?_⟩, ⟨perm_of_filter_key hdrafts, ?_⟩, ?_, ?_, ?_⟩
  · simp only [replies, others, Staging.transcript_eq]
    exact h.perm.map _
  · intro key
    simp only [replies, others, Staging.transcript_eq, List.filter_map]
    exact congrArg _ (h key)
  · intro file number
    rw [← Drafts.get?_filter_key, hdrafts, Drafts.get?_filter_key]
  · exact fun key => congrArg Staging.ledger (honly key)
  · intro file hfile
    refine Ledger.resolve_congr ?_
    rw [Ledger.ofFile_stageAll, Ledger.ofFile_stageAll, hfile]
  · intro β store opened patterns session hopen first second state key
    obtain ⟨-, -, hd⟩ := ofPatterns_ok hopen
    exact congrArg Staging.ledger (only_key_rounds hd first second state key)

/-- Requests for two lines and for a whole file, one of them refused, in two orders. The edits of the
first line meet each other in the same order, under two spellings of its file. -/
theorem two_orders_agree :
    let a : Path := ⟨['a']⟩
    let b : Path := ⟨['b']⟩
    let rename : Request := ⟨a, .line (some ['x', 'y']) (some 1), ['x'], ['z'], .every⟩
    let again : Request := ⟨⟨['a', '/']⟩, .line (some ['x', 'y']) (some 1), ['y'], ['w'], .first⟩
    let refused : Request := ⟨a, .wholeFile, [], ['v'], .wholeLine⟩
    let elsewhere : Request := ⟨b, .line (some ['x']) (some 1), [], ['u'], .wholeLine⟩
    let xs := [rename, elsewhere, again, refused]
    let ys := [refused, rename, again, elsewhere]
    let run := Staging.stageAll xs .empty
    let other := Staging.stageAll ys .empty
    let store := (MemoryStore.empty.set a ['x', '\n', 'x']).set b []
    let session : Session := ⟨[a, b], .empty⟩
    let rounds := fun calls => Move.linePass (β := Unit) fun (_ : LineView) => Script.calls calls
    let first := LineCall.replace ['x'] ['x', 'x'] false
    let second := LineCall.replace ['x'] ['y'] true
    Request.Rearranged xs ys ∧
    xs.filter (fun request => request.file.Same b) = ys.filter (fun request => request.file.Same b) ∧
    ofPatterns access [['*']] store = .ok session store ∧
    other.drafts.get? a 1 = some ['z', 'w'] ∧
    run.drafts.get? a 1 = other.drafts.get? a 1 ∧
    run.ledger.resolve b ['x'] = other.ledger.resolve b ['x'] ∧
    (session.playAll [rounds [first], rounds [second]]
        (session.start store ())).staging.ledger.filter (fun edit => edit.key = .ofLine a 2) =
      (session.playAll [rounds [first, second]]
        (session.start store ())).staging.ledger.filter fun edit => edit.key = .ofLine a 2 := by
  intro a b rename again refused elsewhere xs ys run other store session rounds first second
  have h : Request.Rearranged xs ys := by decide +kernel
  have hfile : xs.filter (fun request => request.file.Same b) =
      ys.filter (fun request => request.file.Same b) := by decide +kernel
  have hopen : ofPatterns access [['*']] store = .ok session store := rfl
  have hdraft : other.drafts.get? a 1 = some ['z', 'w'] := by decide +kernel
  obtain ⟨-, ⟨-, hdrafts⟩, -, hresolve, hrounds⟩ := staging_independent_across_keys h .empty
  exact ⟨h, hfile, hopen, hdraft, hdrafts a 1, hresolve b hfile ['x'],
    hrounds hopen (fun _ => [first]) (fun _ => [second]) _ _⟩

end Session

end BulkEdit
