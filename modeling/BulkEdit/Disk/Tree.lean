import BulkEdit.Path.Basic

/-!
# Directory trees

A disk as a table from locations to what stands there. A location is the list of the names that lead
to it from the top, so it has neither dots nor links in it. The top is always a directory.
-/

namespace BulkEdit.Disk

abbrev Location := List Text

namespace Location

/-- The absolute path of a location. -/
def path (location : Location) : Path := ⟨'/' :: Text.joinWith ['/'] location⟩

/-- The names that lead from `folder` to `location`, if it is `folder` or below it. -/
def below? (folder location : Location) : Option Location :=
  match folder, location with
  | [], rest => some rest
  | _ :: _, [] => none
  | name :: folder, other :: rest => if name = other then below? folder rest else none

theorem below?_eq_some_iff {folder location rest : Location} :
    below? folder location = some rest ↔ location = folder ++ rest := by
  induction folder generalizing location with
  | nil => simp [below?]
  | cons name folder ih =>
    cases location with
    | nil => simp [below?]
    | cons other tail =>
      by_cases h : name = other
      · subst h; simp [below?, ih]
      · simp [below?, h, Ne.symm h]

end Location

/-- What a file holds: a text, or bytes that are the form of no text. -/
inductive Body where
  | text (content : Text)
  | bytes (content : List UInt8)
  deriving DecidableEq, Repr

inductive Node where
  | directory
  | file (mode : Nat) (body : Body)
  | link (target : Text)
  deriving DecidableEq, Repr

namespace Node

def isFile : Node → Bool
  | .file _ _ => true
  | _ => false

def mode? : Node → Option Nat
  | .file mode _ => some mode
  | _ => none

end Node

structure Tree where
  entries : List (Location × Node)
  deriving DecidableEq, Repr

namespace Tree

def empty : Tree := ⟨[]⟩

def get? (tree : Tree) (location : Location) : Option Node :=
  if location = [] then some .directory
  else (tree.entries.find? fun entry => entry.1 == location).map Prod.snd

/-- Entries with `node` at a location, in the place of what stood there. -/
def putIn (location : Location) (node : Node) : List (Location × Node) → List (Location × Node)
  | [] => [(location, node)]
  | entry :: rest =>
    if entry.1 = location then (location, node) :: rest else entry :: putIn location node rest

def put (tree : Tree) (location : Location) (node : Node) : Tree :=
  ⟨putIn location node tree.entries⟩

theorem get?_put (tree : Tree) (location other : Location) (node : Node) (h : other ≠ []) :
    (tree.put location node).get? other = if other = location then some node else tree.get? other := by
  simp only [get?, h, if_false, put]
  induction tree.entries with
  | nil =>
    by_cases e : location = other
    · subst e; simp [putIn]
    · simp [putIn, e, Ne.symm e]
  | cons entry rest ih =>
    rw [putIn]
    split
    next he =>
      by_cases e : location = other
      · subst e; simp
      · simp [e, Ne.symm e, he]
    next he =>
      by_cases e : entry.1 = other
      · have : other ≠ location := fun hl => he (e.trans hl)
        simp [e, this]
      · simpa [e] using ih

/-- Takes away a file or a link. -/
def unlink (tree : Tree) (location : Location) : Tree :=
  ⟨tree.entries.filter fun entry => entry.1 ≠ location⟩

/-- What is put where nothing stands can be taken away again without a trace. -/
theorem unlink_put {tree : Tree} {location : Location} (h : tree.get? location = none) (node : Node) :
    (tree.put location node).unlink location = tree := by
  have hne : location ≠ [] := by
    rintro rfl
    cases h
  rw [get?, if_neg hne, Option.map_eq_none_iff, List.find?_eq_none] at h
  obtain ⟨entries⟩ := tree
  simp only [put, unlink, Tree.mk.injEq]
  induction entries with
  | nil => simp [putIn]
  | cons entry rest ih =>
    obtain ⟨hentry, hrest⟩ := List.forall_mem_cons.mp h
    have hother : entry.1 ≠ location := fun he => hentry (beq_iff_eq.mpr he)
    rw [putIn, if_neg hother, List.filter_cons, if_pos (decide_eq_true hother), ih hrest]

/-- Takes away a location with all that is below it. -/
def remove (tree : Tree) (location : Location) : Tree :=
  ⟨tree.entries.filter fun entry => (location.below? entry.1).isNone⟩

/-- The names of what stands in a directory. -/
def names (tree : Tree) (folder : Location) : List Text :=
  tree.entries.filterMap fun entry =>
    match folder.below? entry.1 with
    | some [name] => some name
    | _ => none

/-- The number of names in the longest location. -/
def height (tree : Tree) : Nat :=
  tree.entries.foldr (fun entry height => max entry.1.length height) 0

end Tree

end BulkEdit.Disk
