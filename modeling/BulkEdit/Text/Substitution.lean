import BulkEdit.Text.Basic

/-!
# Literal substitution

Replacing a text by another one: at its first occurrence, or at every occurrence from left to right
without overlaps. The replacement is inserted as it is and is never searched. The empty text occurs
before every character and at the end, so its first occurrence is at the start.
-/

namespace BulkEdit.Text

/-- The text `t` with its first `search` replaced, or `t` itself where there is none. -/
def replaceFirst (search replacement t : Text) : Text :=
  match splitAtFirst search t with
  | none => t
  | some (before, after) => before ++ replacement ++ after

/-- Left to right replacement of a text that is not empty. The number counts the characters of a
match that are still to be dropped. -/
def replaceFrom (search replacement : Text) : Nat → Text → Text
  | _, [] => []
  | skip + 1, _ :: rest => replaceFrom search replacement skip rest
  | 0, c :: rest =>
    if search.isPrefixOf (c :: rest) then
      replacement ++ replaceFrom search replacement (search.length - 1) rest
    else c :: replaceFrom search replacement 0 rest

/-- The text `t` with `filler` before every character and at the end. -/
def interleave (filler : Text) : Text → Text
  | [] => filler
  | c :: rest => filler ++ c :: interleave filler rest

/-- The text `t` with every `search` replaced. -/
def replaceAll (search replacement t : Text) : Text :=
  if search.isEmpty then interleave replacement t else replaceFrom search replacement 0 t

end BulkEdit.Text
