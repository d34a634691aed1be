import BulkEdit.Access.Basic

/-!
# Scripted access

An access whose answers are in part laid down beforehand: a fixed list of files whatever the patterns
are, and reads that fail from a certain one on. Everything else is left to another access.
-/

namespace BulkEdit

structure Scripted (σ : Type) where
  inner : σ
  listing : Option (List Path)
  /-- Paths with the number of the first read that fails, counted from one. -/
  readLimits : List (Path × Nat)
  /-- The paths read so far. -/
  reads : List Path

namespace Scripted

variable {σ α : Type}

/-- Does something with the state underneath. -/
def lift (action : Action σ α) : Action (Scripted σ) α := fun state =>
  match action state.inner with
  | .ok answer inner => .ok answer { state with inner }
  | .error failure inner => .error failure { state with inner }

def readCount (state : Scripted σ) (path : Path) : Nat :=
  state.reads.countP fun read => read.Same path

def find (access : Access σ) (patterns : List Text) : Action (Scripted σ) (List Path) := fun state =>
  match state.listing with
  | some files => .ok files state
  | none => lift (access.find patterns) state

def read (access : Access σ) (path : Path) : Action (Scripted σ) Text := fun state =>
  let state := { state with reads := path :: state.reads }
  if state.readLimits.any fun (limited, first) =>
      decide (limited.Same path) && first ≤ state.readCount path then
    .error (.unreadable path .scriptedRead) state
  else lift (access.read path) state

def access (inner : Access σ) : Access (Scripted σ) :=
  ⟨find inner, read inner, fun path text => lift (inner.write path text)⟩

end Scripted

end BulkEdit
