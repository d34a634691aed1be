import BulkEdit.Text.Basic

/-!
# Lines

Only a newline ends a line. A carriage return before it belongs to the line, a text that ends in a
newline has an empty last line, and the empty text is one empty line.
-/

namespace BulkEdit

/-- A line of a text with its place, counted from one. -/
structure Line where
  number : Nat
  text : Text
  deriving DecidableEq, Repr

namespace Line

/-- Numbers texts in order, the first with `start`. -/
def numberFrom (start : Nat) : List Text → List Line
  | [] => []
  | text :: rest => ⟨start, text⟩ :: numberFrom (start + 1) rest

end Line

namespace Text

def lines (t : Text) : List Line := Line.numberFrom 1 (t.pieces '\n')

def unlines (texts : List Text) : Text := joinWith ['\n'] texts

end Text

end BulkEdit
