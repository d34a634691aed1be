import BulkEdit.Text.Basic

/-!
# Blank texts

A text is blank when it holds nothing but white space, by the white-space property of characters.
The zero-width characters do not have it.
-/

namespace BulkEdit.Text

def isWhiteSpace (c : Char) : Bool :=
  let n := c.toNat
  (9 ≤ n && n ≤ 13) || n = 0x20 || n = 0x85 || n = 0xa0 || n = 0x1680 ||
    (0x2000 ≤ n && n ≤ 0x200a) || n = 0x2028 || n = 0x2029 || n = 0x202f || n = 0x205f || n = 0x3000

def isBlank (t : Text) : Bool := t.all isWhiteSpace

end BulkEdit.Text
