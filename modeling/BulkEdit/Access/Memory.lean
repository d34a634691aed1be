import BulkEdit.Access.Basic
import BulkEdit.Glob.Selection
import BulkEdit.Path.Order

/-!
# Files in memory

Files kept by path in the order of paths, no two under the same path. A file keeps the spelling under
which it was first stored. Reads and writes of chosen paths can be made to fail, and the writes that
succeed are logged.
-/

namespace BulkEdit

structure MemoryStore where
  files : List (Path × Text)
  writes : List Path
  failingReads : List Path
  failingWrites : List Path
  ordered : Path.Ordered (files.map Prod.fst)
  deriving DecidableEq, Repr

namespace MemoryStore

def empty : MemoryStore := ⟨[], [], [], [], List.Pairwise.nil⟩

/-- Puts the text of a file in its place among files in order. -/
def insert (path : Path) (text : Text) : List (Path × Text) → List (Path × Text)
  | [] => [(path, text)]
  | (other, content) :: rest =>
    if path.Same other then (other, text) :: rest
    else if path.before other then (path, text) :: (other, content) :: rest
    else (other, content) :: insert path text rest

theorem paths_insert (path : Path) (text : Text) (files : List (Path × Text)) :
    (insert path text files).map Prod.fst = Path.insertInOrder path (files.map Prod.fst) := by
  induction files with
  | nil => rfl
  | cons file rest ih =>
    simp only [insert, List.map_cons, Path.insertInOrder]
    split
    · rfl
    · split
      · rfl
      · rw [List.map_cons, ih]

/-- Sets a text from outside. This is not logged. -/
def set (store : MemoryStore) (path : Path) (text : Text) : MemoryStore :=
  { store with
    files := insert path text store.files
    ordered := paths_insert path text store.files ▸ Path.ordered_insertInOrder store.ordered }

def get? (store : MemoryStore) (path : Path) : Option Text :=
  (store.files.find? fun file => path.Same file.1).map Prod.snd

def find {γ : Type} (globbing : Globbing γ) (patterns : List Text) :
    Action MemoryStore (List Path) := fun store =>
  match Selection.ofPatternsBy globbing patterns with
  | .error reason => .error (.noFilesFound patterns reason) store
  | .ok selection =>
    .ok ((store.files.map Prod.fst).filter fun path => selection.selects path.spelling) store

def read (path : Path) : Action MemoryStore Text := fun store =>
  if store.failingReads.any fun failing => path.Same failing then
    .error (.unreadable path .injectedRead) store
  else
    match store.get? path with
    | none => .error (.unreadable path .absent) store
    | some text => .ok text store

def write (path : Path) (text : Text) : Action MemoryStore Unit := fun store =>
  if store.failingWrites.any fun failing => path.Same failing then
    .error (.unwritable path .injectedWrite) store
  else .ok () { store.set path text with writes := store.writes ++ [path] }

/-- Access with globs as they are read and matched by `globbing`. -/
def accessBy {γ : Type} (globbing : Globbing γ) : Access MemoryStore := ⟨find globbing, read, write⟩

def access : Access MemoryStore := ⟨find .standard, read, write⟩

end MemoryStore

end BulkEdit
