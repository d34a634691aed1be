import BulkEdit.Proofs.Access.Memory
import BulkEdit.Access.Scripted

/-!
# Faithful accesses

What a store of files owes its callers: a read tells what a file holds and changes nothing that can be
read, and a write sets what is read of the file and of no other. Several paths may lead to one file. Files
in memory are of this kind as long as no failure of a write is injected, also under a fixed listing.
-/

namespace BulkEdit

variable {σ : Type}

/-- How an action ends that leaves the state `after`. -/
def Action.settled {α : Type} (outcome : Except Failure α) (after : σ) :
    EStateM.Result Failure σ α :=
  match outcome with
  | .ok answer => .ok answer after
  | .error failure => .error failure after

/-- That in the stores that are `reached` an access reads `contents`, and writes them for all paths that
lead to the same file. -/
structure Access.Faithful (access : Access σ) (contents : σ → Path → Except Failure Text)
    (same : Path → Path → Prop) (reached : σ → Prop) : Prop where
  read : ∀ {store : σ}, reached store → ∀ path, ∃ after, reached after ∧
    contents after = contents store ∧
    access.read path store = Action.settled (contents store path) after
  write : ∀ {store : σ}, reached store → ∀ {path content}, contents store path = .ok content →
    ∀ text, ∃ after, reached after ∧ access.write path text store = .ok () after ∧
      (∀ other, same path other → contents after other = .ok text) ∧
      ∀ other, ¬ same path other → contents after other = contents store other
  shared : ∀ {store : σ}, reached store → ∀ {path other content}, same path other →
    contents store path = .ok content → contents store other = .ok content
  same_self : ∀ {store : σ}, reached store → ∀ {path content}, contents store path = .ok content →
    same path path
  same_symm : ∀ {path other}, same path other → same other path

namespace MemoryStore

/-- What a read of a path comes to. -/
def contents (store : MemoryStore) (path : Path) : Except Failure Text :=
  match store.readFault? path with
  | some fault => .error (.unreadable path fault)
  | none => .ok (store.textOf path)

theorem contents_eq_ok_iff {store : MemoryStore} {path : Path} {content : Text} :
    store.contents path = .ok content ↔
      store.readFault? path = none ∧ store.textOf path = content := by
  rw [contents]
  cases store.readFault? path <;> simp

theorem get?_congr (store : MemoryStore) {path other : Path} (h : path.Same other) :
    store.get? path = store.get? other := by
  have hsame : ∀ file : Path × Text, decide (path.Same file.1) = decide (other.Same file.1) :=
    fun file => decide_eq_decide.mpr ⟨h.symm.trans, h.trans⟩
  simp only [get?, hsame]

theorem readFault?_congr (store : MemoryStore) {path other : Path} (h : path.Same other) :
    store.readFault? path = store.readFault? other := by
  have hsame : ∀ failing : Path, decide (path.Same failing) = decide (other.Same failing) :=
    fun failing => decide_eq_decide.mpr ⟨h.symm.trans, h.trans⟩
  simp only [readFault?, hsame, get?_congr store h]

theorem textOf_congr (store : MemoryStore) {path other : Path} (h : path.Same other) :
    store.textOf path = store.textOf other := by
  rw [textOf, textOf, get?_congr store h]

theorem contents_written (store : MemoryStore) {path : Path} {content : Text}
    (h : store.contents path = .ok content) (text : Text) (other : Path) :
    (store.written path text).contents other =
      if path.Same other then .ok text else store.contents other := by
  have hget : (store.written path text).get? other =
      if path.Same other then some text else store.get? other := get?_set store path text other
  have hfailing : (store.written path text).failingReads = store.failingReads := rfl
  split
  next hs =>
    rw [if_pos hs] at hget
    obtain ⟨hfault, -⟩ := contents_eq_ok_iff.mp h
    rw [readFault?_congr store hs, readFault?] at hfault
    split at hfault
    next => cases hfault
    next hnone => simp [contents, readFault?, textOf, hget, hfailing, hnone]
  next hs =>
    rw [if_neg hs] at hget
    simp only [contents, readFault?, textOf, hget, hfailing]

theorem read_eq_settled (store : MemoryStore) (path : Path) :
    read path store = Action.settled (store.contents path) store := by
  rw [contents]
  cases hf : store.readFault? path with
  | some fault => exact read_of_readFault? hf
  | none => exact read_of_readable hf

theorem access_read_eq (path : Path) (store : MemoryStore) :
    access.read path store = Action.settled (store.contents path) store := read_eq_settled store path

theorem access_write_eq (path : Path) (text : Text) (store : MemoryStore) :
    access.write path text store =
      if store.refusesWrite path then .error (.unwritable path .injectedWrite) store
      else .ok () (store.written path text) := write_eq store path text

/-- Files in memory under a scripted listing, where no read or write is scripted or made to fail. -/
theorem faithful_scripted :
    (Scripted.access access).Faithful (fun state => state.inner.contents) Path.Same fun state =>
      state.readLimits = [] ∧ state.inner.failingWrites = [] where
  read := by
    rintro state ⟨hlimits, hwrites⟩ path
    refine ⟨{ state with reads := path :: state.reads }, ⟨hlimits, hwrites⟩, rfl, ?_⟩
    simp only [Scripted.access, Scripted.read, hlimits, List.any_nil, Scripted.lift, access_read_eq]
    cases state.inner.contents path <;> rfl
  write := by
    rintro state ⟨hlimits, hwrites⟩ path content hcontent text
    refine ⟨{ state with inner := state.inner.written path text }, ⟨hlimits, hwrites⟩, ?_, ?_, ?_⟩
    · simp [Scripted.access, Scripted.lift, access_write_eq, refusesWrite, hwrites]
    · intro other hs
      exact (contents_written state.inner hcontent text other).trans (if_pos hs)
    · intro other hs
      exact (contents_written state.inner hcontent text other).trans (if_neg hs)
  shared := by
    intro state _ path other content hs hcontent
    obtain ⟨hfault, htext⟩ := contents_eq_ok_iff.mp hcontent
    exact contents_eq_ok_iff.mpr
      ⟨(readFault?_congr _ hs).symm.trans hfault, (textOf_congr _ hs).symm.trans htext⟩
  same_self := fun _ _ _ _ => Path.same_refl _
  same_symm := Path.Same.symm

end MemoryStore

end BulkEdit
