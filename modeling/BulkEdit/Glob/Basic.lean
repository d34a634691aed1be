import BulkEdit.Text.Basic

/-!
# Globs

A glob is a sequence of parts. Its text is read as characters, and it matches the bytes of a path.
-/

namespace BulkEdit

namespace Glob

/-- One part of a glob. The three kinds of double star differ in the slashes that they take. -/
inductive Part where
  | literal (c : Char)
  | anyByte
  | star
  | oneOf (negated : Bool) (ranges : List (Char × Char))
  | leadingFolders
  | middleFolders
  | trailingTree
  | choice (branches : List (List Part))
  deriving Repr

/-- Why a text is not a glob. -/
inductive Fault where
  | openClass
  | badRange (first last : Char)
  | unopenedGroup
  | openGroup
  | danglingEscape
  deriving DecidableEq, Repr

def Fault.message : Fault → Text
  | .openClass => "unclosed character class; missing ']'".toList
  | .badRange first last =>
    "invalid range; '".toList ++ [first] ++ "' > '".toList ++ [last] ++ "'".toList
  | .unopenedGroup =>
    "unopened alternate group; missing '\x7b' (maybe escape '\x7d' with '[\x7d]'?)".toList
  | .openGroup =>
    "unclosed alternate group; missing '\x7d' (maybe escape '\x7b' with '[\x7b]'?)".toList
  | .danglingEscape => "dangling '\\'".toList

/-- Whether a branch of a choice says nothing: it holds no part but choices without branches. -/
def saysNothing (parts : List Part) : Bool :=
  parts.all fun
    | .choice [] => true
    | _ => false

end Glob

/-- A glob that has been read. -/
structure Glob where
  parts : List Glob.Part
  deriving Repr

end BulkEdit
