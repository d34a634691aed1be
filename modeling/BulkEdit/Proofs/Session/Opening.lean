import BulkEdit.Proofs.Access.Memory
import BulkEdit.Session.Basic

/-!
# Opening sessions on files in memory

Files in memory are stored in order and without repetitions, so that the files found for some patterns
differ and none is merged with another.
-/

namespace BulkEdit

namespace MemoryStore

/-- The stored files that a selection selects, in order. -/
def matching (store : MemoryStore) (selection : Selection) : List Path :=
  (store.files.map Prod.fst).filter fun path => selection.selects path.spelling

theorem distinct_matching (store : MemoryStore) (selection : Selection) :
    Path.Distinct (store.matching selection) :=
  (Path.Ordered.distinct store.ordered).sublist List.filter_sublist

theorem find_accessBy {γ : Type} (globbing : Globbing γ) (patterns : List Text) (store : MemoryStore) :
    (accessBy globbing).find patterns store =
      match Selection.ofPatternsBy globbing patterns with
      | .error reason => .error (.noFilesFound patterns reason) store
      | .ok selection => .ok (store.matching selection) store := by
  change find globbing patterns store = _
  rw [find]
  cases Selection.ofPatternsBy globbing patterns <;> rfl

theorem find_eq (patterns : List Text) (store : MemoryStore) :
    access.find patterns store =
      match Selection.ofPatterns patterns with
      | .error reason => .error (.noFilesFound patterns reason) store
      | .ok selection => .ok (store.matching selection) store :=
  find_accessBy .standard patterns store

theorem get?_isSome_of_mem {store : MemoryStore} {path : Path} (h : path ∈ store.files.map Prod.fst) :
    (store.get? path).isSome = true := by
  obtain ⟨file, hf, rfl⟩ := List.mem_map.mp h
  rw [get?, Option.isSome_map, List.find?_isSome]
  exact ⟨file, hf, decide_eq_true (Path.same_refl file.1)⟩

theorem readFault?_of_isSome {store : MemoryStore} {path : Path}
    (h : (store.get? path).isSome = true) (hreads : store.failingReads = []) :
    store.readFault? path = none := by
  have hget := Option.isNone_eq_false_iff.mpr h
  simp [readFault?, hreads, hget]

/-- A stored file is unreadable only by injection. -/
theorem readFault?_of_mem {store : MemoryStore} {path : Path}
    (h : path ∈ store.files.map Prod.fst) (hreads : store.failingReads = []) :
    store.readFault? path = none := readFault?_of_isSome (get?_isSome_of_mem h) hreads

theorem refusesWrite_of_nil {store : MemoryStore} (hwrites : store.failingWrites = []) (path : Path) :
    store.refusesWrite path = false := by
  rw [refusesWrite, hwrites, List.any_nil]

end MemoryStore

namespace Session

open MemoryStore (access accessBy)

/-- Opening finds the stored files that match, and fails without any. -/
theorem ofPatterns_accessBy {γ : Type} (globbing : Globbing γ) (patterns : List Text)
    (store : MemoryStore) :
    ofPatterns (accessBy globbing) patterns store =
      match Selection.ofPatternsBy globbing patterns with
      | .error reason => .error (.noFilesFound patterns reason) store
      | .ok selection =>
        if store.matching selection = [] then
          .error (.noFilesFound patterns .matchedNothing) store
        else .ok ⟨store.matching selection, .empty⟩ store := by
  simp only [ofPatterns, bind, EStateM.bind, MemoryStore.find_accessBy]
  cases Selection.ofPatternsBy globbing patterns with
  | error reason => rfl
  | ok selection =>
    simp only [Path.mergeAdjacent_of_distinct (store.distinct_matching selection),
      List.isEmpty_iff]
    split <;> rfl

theorem ofPatterns_eq (patterns : List Text) (store : MemoryStore) :
    ofPatterns access patterns store =
      match Selection.ofPatterns patterns with
      | .error reason => .error (.noFilesFound patterns reason) store
      | .ok selection =>
        if store.matching selection = [] then
          .error (.noFilesFound patterns .matchedNothing) store
        else .ok ⟨store.matching selection, .empty⟩ store :=
  ofPatterns_accessBy .standard patterns store

theorem exists_matching_of_ofPatterns {store opened : MemoryStore} {patterns : List Text}
    {session : Session} (h : ofPatterns access patterns store = .ok session opened) :
    opened = store ∧ ∃ selection, session = ⟨store.matching selection, .empty⟩ := by
  rw [ofPatterns_eq] at h
  split at h
  · cases h
  next selection _ =>
    split at h
    · cases h
    · cases h
      exact ⟨rfl, selection, rfl⟩

/-- Opening a session on files in memory leaves them as they are. Its files are distinct. -/
theorem ofPatterns_ok {store opened : MemoryStore} {patterns : List Text} {session : Session}
    (h : ofPatterns access patterns store = .ok session opened) :
    opened = store ∧ session.staging = .empty ∧ Path.Distinct session.files := by
  obtain ⟨rfl, selection, rfl⟩ := exists_matching_of_ofPatterns h
  exact ⟨rfl, rfl, MemoryStore.distinct_matching _ selection⟩

/-- The files of a session are stored files. -/
theorem mem_stored_of_ofPatterns {store opened : MemoryStore} {patterns : List Text}
    {session : Session} (h : ofPatterns access patterns store = .ok session opened) :
    ∀ file ∈ session.files, file ∈ store.files.map Prod.fst := by
  obtain ⟨rfl, selection, rfl⟩ := exists_matching_of_ofPatterns h
  exact fun file hf => (List.mem_filter.mp hf).1

end Session

end BulkEdit
