import BulkEdit.Access.Memory
import BulkEdit.Proofs.Path.Distinct

/-!
# Reads and writes of files in memory

Whether a read or a write fails is settled by the path and the store alone. A write that succeeds
changes what is read at its own path, logs it and does nothing else.
-/

namespace BulkEdit.MemoryStore

/-- What a read of a path fails with. -/
def readFault? (store : MemoryStore) (path : Path) : Option StoreFault :=
  if store.failingReads.any fun failing => path.Same failing then some .injectedRead
  else if (store.get? path).isNone then some .absent
  else none

/-- The text of a file that can be read. -/
def textOf (store : MemoryStore) (path : Path) : Text := (store.get? path).getD []

def refusesWrite (store : MemoryStore) (path : Path) : Bool :=
  store.failingWrites.any fun failing => path.Same failing

/-- The store after a write that succeeds. -/
def written (store : MemoryStore) (path : Path) (text : Text) : MemoryStore :=
  { store.set path text with writes := store.writes ++ [path] }

theorem find?_insert (path : Path) (text : Text) (files : List (Path × Text)) (p : Path) :
    ((insert path text files).find? fun file => p.Same file.1).map Prod.snd =
      if path.Same p then some text
      else (files.find? fun file => p.Same file.1).map Prod.snd := by
  induction files with
  | nil =>
    by_cases h : path.Same p
    · simp [insert, h, h.symm]
    · simp [insert, h, mt Path.Same.symm h]
  | cons file rest ih =>
    obtain ⟨other, content⟩ := file
    rw [insert]
    split
    next hs =>
      have hp : p.Same other ↔ path.Same p := ⟨fun h => hs.trans h.symm, fun h => h.symm.trans hs⟩
      by_cases h : path.Same p
      · simp [h, hp.mpr h]
      · simp [h, mt hp.mp h]
    next hs =>
      split
      · by_cases h : path.Same p
        · simp [h, h.symm]
        · simp [h, mt Path.Same.symm h]
      · by_cases hp : p.Same other
        · have h : ¬ path.Same p := fun h => hs (h.trans hp)
          simp [h, hp]
        · simpa [hp] using ih

/-- A text that is set is read back under every spelling of its path, and no other text changes. -/
theorem get?_set (store : MemoryStore) (path : Path) (text : Text) (p : Path) :
    (store.set path text).get? p = if path.Same p then some text else store.get? p :=
  find?_insert path text store.files p

theorem read_of_readFault? {store : MemoryStore} {path : Path} {fault : StoreFault}
    (h : store.readFault? path = some fault) :
    read path store = .error (.unreadable path fault) store := by
  rw [readFault?] at h
  rw [read]
  split at h
  next hf => cases h; rw [if_pos hf]
  next hf =>
    rw [if_neg hf]
    split at h
    next hn => cases h; rw [Option.isNone_iff_eq_none.mp hn]
    next => cases h

theorem get?_of_readable {store : MemoryStore} {path : Path} (h : store.readFault? path = none) :
    store.get? path = some (store.textOf path) := by
  rw [readFault?] at h
  split at h
  · cases h
  · split at h
    · cases h
    next hn =>
      obtain ⟨text, ht⟩ := Option.ne_none_iff_exists'.mp (mt Option.isNone_iff_eq_none.mpr hn)
      rw [textOf, ht, Option.getD_some]

theorem read_of_readable {store : MemoryStore} {path : Path} (h : store.readFault? path = none) :
    read path store = .ok (store.textOf path) store := by
  have hget := get?_of_readable h
  rw [readFault?] at h
  split at h
  next => cases h
  next hf => rw [read, if_neg hf, hget]

theorem write_eq (store : MemoryStore) (path : Path) (text : Text) :
    write path text store =
      if store.refusesWrite path then .error (.unwritable path .injectedWrite) store
      else .ok () (store.written path text) := rfl

end BulkEdit.MemoryStore
