import BulkEdit.Glob.Basic

/-!
# Reading globs

One pass over the characters. A choice in braces is kept on a stack of open groups until it closes,
and a double star is told by its neighbours: it stands for folders only as a whole component.
-/

namespace BulkEdit.Glob

/-- A group that is still open: the parts before it and its branches so far, both last first. -/
structure OpenGroup where
  before : List Part
  branches : List (List Part)

/-- The parts of the branch being read, last first, and the groups around it, innermost first. -/
structure Draft where
  parts : List Part
  groups : List OpenGroup

namespace Draft

def empty : Draft := ⟨[], []⟩

def push (draft : Draft) (part : Part) : Draft := { draft with parts := part :: draft.parts }

def openBranch (draft : Draft) : Draft := ⟨[], ⟨draft.parts, []⟩ :: draft.groups⟩

/-- A comma parts branches inside a group and is itself outside of one. -/
def comma (draft : Draft) : Draft :=
  match draft.groups with
  | [] => draft.push (.literal ',')
  | group :: outer =>
    ⟨[], { group with branches := draft.parts.reverse :: group.branches } :: outer⟩

/-- Branches that say nothing are dropped. -/
def closeGroup (draft : Draft) : Except Fault Draft :=
  match draft.groups with
  | [] => .error .unopenedGroup
  | group :: outer =>
    let branches := (draft.parts.reverse :: group.branches).reverse
    .ok ⟨.choice (branches.filter (!saysNothing ·)) :: group.before, outer⟩

/-- A double star that is not a whole component is two stars. -/
def twoStars (draft : Draft) : Draft := (draft.push .star).push .star

/-- A double star takes the place of the slash before it. After another double star that stands for
leading folders or a whole tree it adds nothing. -/
def folders (draft : Draft) (atEnd : Bool) : Draft :=
  match draft.parts with
  | .leadingFolders :: _ => draft
  | .trailingTree :: _ => draft
  | _ :: earlier => ⟨(if atEnd then .trailingTree else .middleFolders) :: earlier, draft.groups⟩
  | [] => draft

/-- Whether a double star after the character `previous` can be a whole component. -/
def startsComponent (draft : Draft) (previous : Option Char) : Bool :=
  previous == some '/' || (!draft.groups.isEmpty && (previous == some ',' || previous == some '\x7b'))

end Draft

/-- A character class while it is read, its ranges last first. -/
structure ClassDraft where
  negated : Bool
  ranges : List (Char × Char)
  /-- A minus sign has been read and its range waits for its last character. -/
  pending : Bool

/-- Adds a character that is no closing bracket and no minus sign with a meaning. -/
def ClassDraft.add (draft : ClassDraft) (c : Char) : Except Fault ClassDraft :=
  match draft.pending, draft.ranges with
  | true, (first, _) :: earlier =>
    if c < first then .error (.badRange first c)
    else .ok { draft with ranges := (first, c) :: earlier, pending := false }
  | _, ranges => .ok { draft with ranges := (c, c) :: ranges, pending := false }

/-- A minus sign that waited in vain is itself. -/
def ClassDraft.close (draft : ClassDraft) : Part :=
  .oneOf draft.negated
    (if draft.pending then ('-', '-') :: draft.ranges else draft.ranges).reverse

/-- What is being read: parts, or the inside of a character class. -/
inductive Mode where
  | parts
  | inClass (draft : ClassDraft)

/-- Reads the rest of a glob after the character `previous`. -/
def readFrom : Mode → Option Char → Draft → Text → Except Fault Draft
  | .inClass _, _, _, [] => .error .openClass
  | .inClass inside, _, draft, c :: rest =>
    if c = ']' ∧ inside.ranges ≠ [] then
      readFrom .parts (some c) (draft.push inside.close) rest
    else if c = '-' ∧ inside.ranges ≠ [] ∧ ¬ inside.pending then
      readFrom (.inClass { inside with pending := true }) (some c) draft rest
    else
      match inside.add c with
      | .error fault => .error fault
      | .ok inside => readFrom (.inClass inside) (some c) draft rest
  | .parts, _, draft, [] => .ok draft
  | .parts, _, _, ['\\'] => .error .danglingEscape
  | .parts, _, draft, '\\' :: c :: rest => readFrom .parts (some c) (draft.push (.literal c)) rest
  | .parts, _, draft, '[' :: '!' :: rest => readFrom (.inClass ⟨true, [], false⟩) (some '!') draft rest
  | .parts, _, draft, '[' :: '^' :: rest => readFrom (.inClass ⟨true, [], false⟩) (some '^') draft rest
  | .parts, _, draft, '[' :: rest => readFrom (.inClass ⟨false, [], false⟩) (some '[') draft rest
  | .parts, _, draft, '\x7b' :: rest => readFrom .parts (some '\x7b') draft.openBranch rest
  | .parts, _, draft, '\x7d' :: rest =>
    match draft.closeGroup with
    | .error fault => .error fault
    | .ok draft => readFrom .parts (some '\x7d') draft rest
  | .parts, _, draft, ',' :: rest => readFrom .parts (some ',') draft.comma rest
  | .parts, _, draft, '?' :: rest => readFrom .parts (some '?') (draft.push .anyByte) rest
  | .parts, previous, draft, ['*', '*'] =>
    if draft.parts.isEmpty then .ok (draft.push .leadingFolders)
    else if draft.startsComponent previous then .ok (draft.folders true)
    else .ok draft.twoStars
  | .parts, previous, draft, '*' :: '*' :: '/' :: rest =>
    if draft.parts.isEmpty then readFrom .parts (some '/') (draft.push .leadingFolders) rest
    else if draft.startsComponent previous then
      readFrom .parts (some '/') (draft.folders false) rest
    else readFrom .parts (some '/') (draft.twoStars.push (.literal '/')) rest
  | .parts, previous, draft, '*' :: '*' :: next :: rest =>
    if !draft.parts.isEmpty && draft.startsComponent previous &&
        !draft.groups.isEmpty && (next == ',' || next == '\x7d') then
      readFrom .parts (some '*') (draft.folders true) (next :: rest)
    else readFrom .parts (some '*') draft.twoStars (next :: rest)
  | .parts, _, draft, '*' :: rest => readFrom .parts (some '*') (draft.push .star) rest
  | .parts, _, draft, c :: rest => readFrom .parts (some c) (draft.push (.literal c)) rest

/-- The glob that a text spells. -/
def read (text : Text) : Except Fault Glob :=
  match readFrom .parts none Draft.empty text with
  | .error fault => .error fault
  | .ok draft => if draft.groups.isEmpty then .ok ⟨draft.parts.reverse⟩ else .error .openGroup

end BulkEdit.Glob
