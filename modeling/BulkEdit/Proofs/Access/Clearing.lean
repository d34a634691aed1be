import BulkEdit.Proofs.Access.Faithful

/-!
# Files without a text

A file is cleared of a text if it is read without the text and takes back what is read. A write of a text
that does not hold it clears the file that is written and every file that was cleared before stays so,
whichever paths lead to one file. A cleared file that is written back is left as it is.
-/

namespace BulkEdit

theorem Action.settled_eq_ok_iff {σ α : Type} {outcome : Except Failure α} {after later : σ}
    {answer : α} :
    Action.settled outcome after = .ok answer later ↔ outcome = .ok answer ∧ after = later := by
  cases outcome <;> simp [Action.settled]

namespace Access

variable {σ : Type} {access : Access σ} {search : Text} {mark : σ → Path → σ}

/-- That a file is read without `search`, and that writing back what is read does no more than `mark`
the store. -/
def Cleared (access : Access σ) (search : Text) (mark : σ → Path → σ) (store : σ) (file : Path) :
    Prop :=
  ∃ content, access.read file store = .ok content store ∧ ¬ content.has search = true ∧
    access.write file content store = .ok () (mark store file)

/-- That reads keep a store, and that writes of texts without `search` clear files and keep them clear. -/
structure Clears (access : Access σ) (search : Text) (mark : σ → Path → σ) : Prop where
  read : ∀ {store later : σ} {file content}, access.read file store = .ok content later →
    later = store
  write : ∀ {store later : σ} {file content text}, access.read file store = .ok content store →
    ¬ text.has search = true → access.write file text store = .ok () later →
    access.Cleared search mark later file ∧
      ∀ other, access.Cleared search mark store other → access.Cleared search mark later other

theorem Clears.cleared_mark (h : access.Clears search mark) {store : σ} {file other : Path}
    (hfile : access.Cleared search mark store file)
    (hother : access.Cleared search mark store other) :
    access.Cleared search mark (mark store file) other := by
  obtain ⟨content, hread, hfree, hwrite⟩ := hfile
  exact (h.write hread hfree hwrite).2 other hother

end Access

/-- A path that is in its place already stays there. -/
theorem Path.insertInOrder_of_mem {path : Path} {paths : List Path} (ho : Ordered paths)
    (h : path ∈ paths) : insertInOrder path paths = paths := by
  induction paths with
  | nil => cases h
  | cons other rest ih =>
    obtain ⟨hother, hrest⟩ := List.pairwise_cons.mp ho
    rw [insertInOrder]
    by_cases hs : path.Same other
    · rw [if_pos hs]
    · rcases List.mem_cons.mp h with rfl | h
      · exact absurd (same_refl path) hs
      · have hnot : ¬ path.before other = true := fun hb =>
          not_same_of_before (before_trans hb (hother path h)) (same_refl path)
        rw [if_neg hs, if_neg hnot, ih hrest h]

namespace MemoryStore

variable {store : MemoryStore} {path : Path} {search text : Text}

theorem insert_self {files : List (Path × Text)} (ho : Path.Ordered (files.map Prod.fst))
    (h : (files.find? fun file => path.Same file.1).map Prod.snd = some text) :
    insert path text files = files := by
  induction files with
  | nil => cases h
  | cons file rest ih =>
    obtain ⟨other, content⟩ := file
    obtain ⟨hother, hrest⟩ := List.pairwise_cons.mp ho
    rw [insert]
    by_cases hs : path.Same other
    · have htext : content = text := by simpa [hs] using h
      rw [if_pos hs, htext]
    · have hlater : (rest.find? fun file => path.Same file.1).map Prod.snd = some text := by
        simpa [hs] using h
      obtain ⟨found, hfound, -⟩ := Option.map_eq_some_iff.mp hlater
      have hbefore := hother found.1 (List.mem_map_of_mem (List.mem_of_find?_eq_some hfound))
      have hsame : path.Same found.1 := by simpa using List.find?_some hfound
      -- In a list in order no other spelling of the path can follow one that the path comes before.
      have hnot : ¬ path.before other = true := fun hb =>
        Path.not_same_of_before (Path.before_trans hb hbefore) hsame
      rw [if_neg hs, if_neg hnot, ih hrest hlater]

/-- Setting a text that is there already changes nothing. -/
theorem set_self (h : store.get? path = some text) : store.set path text = store := by
  obtain ⟨files, writes, failingReads, failingWrites, ordered⟩ := store
  simp only [set, insert_self ordered h]

theorem paths_written (hpath : path ∈ store.files.map Prod.fst) (text : Text) :
    (store.written path text).files.map Prod.fst = store.files.map Prod.fst :=
  (paths_insert path text store.files).trans (Path.insertInOrder_of_mem store.ordered hpath)

/-- The store after files have been written as they were. -/
def logged (store : MemoryStore) (files : List Path) : MemoryStore :=
  { store with writes := store.writes ++ files }

def touch (store : MemoryStore) (file : Path) : MemoryStore := store.logged [file]

theorem foldl_touch (store : MemoryStore) (files : List Path) :
    files.foldl touch store = store.logged files := by
  induction files generalizing store with
  | nil => simp [logged]
  | cons file rest ih =>
    rw [List.foldl_cons, ih]
    simp [touch, logged]

theorem read_eq_ok_iff {content : Text} {later : MemoryStore} :
    access.read path store = .ok content later ↔ store.contents path = .ok content ∧ store = later := by
  rw [access_read_eq, Action.settled_eq_ok_iff]

theorem write_eq_ok_iff {later : MemoryStore} :
    access.write path text store = .ok () later ↔
      store.refusesWrite path = false ∧ store.written path text = later := by
  rw [access_write_eq]
  cases store.refusesWrite path <;> simp

theorem cleared_iff : access.Cleared search touch store path ↔
    store.refusesWrite path = false ∧
      ∃ content, store.contents path = .ok content ∧ ¬ content.has search = true := by
  simp only [Access.Cleared, read_eq_ok_iff, write_eq_ok_iff, and_true]
  constructor
  · rintro ⟨content, hcontent, hfree, hrefuses, -⟩
    exact ⟨hrefuses, content, hcontent, hfree⟩
  · rintro ⟨hrefuses, content, hcontent, hfree⟩
    obtain ⟨hfault, htext⟩ := contents_eq_ok_iff.mp hcontent
    have hget : store.get? path = some content := htext ▸ get?_of_readable hfault
    refine ⟨content, hcontent, hfree, hrefuses, ?_⟩
    rw [written, set_self hget]
    rfl

/-- Writes to files in memory clear them, also where other writes are made to fail. -/
theorem clears (search : Text) : access.Clears search touch where
  read h := (read_eq_ok_iff.mp h).2.symm
  write := by
    intro store later file content text hread hfree hwrite
    obtain ⟨hcontent, -⟩ := read_eq_ok_iff.mp hread
    obtain ⟨hrefuses, rfl⟩ := write_eq_ok_iff.mp hwrite
    have hcontents := contents_written store hcontent text
    refine ⟨cleared_iff.mpr ⟨hrefuses, text, ?_, hfree⟩, fun other hother => ?_⟩
    · rw [hcontents, if_pos (Path.same_refl file)]
    · obtain ⟨hrefusesOther, now, hnow, hnowFree⟩ := cleared_iff.mp hother
      refine cleared_iff.mpr ⟨hrefusesOther, ?_⟩
      rw [hcontents]
      split
      · exact ⟨text, rfl, hfree⟩
      · exact ⟨now, hnow, hnowFree⟩

end MemoryStore

end BulkEdit
