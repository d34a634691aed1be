import BulkEdit.Text.Basic
import BulkEdit.Text.Hidden

/-!
# Quoted texts

Messages quote texts so that every character can be told: in double quotes, with a backslash before a
quote and a backslash, the short forms for the common controls, and the code in braces for every
other character that is not shown.
-/

namespace BulkEdit.Text

/-- The lower-case hexadecimal digits of a number. -/
def hexDigits (n : Nat) : Text := Nat.toDigits 16 n

def quoteChar (c : Char) : Text :=
  match c with
  | '\x00' => ['\\', '0']
  | '\t' => ['\\', 't']
  | '\n' => ['\\', 'n']
  | '\r' => ['\\', 'r']
  | '"' => ['\\', '"']
  | '\\' => ['\\', '\\']
  | c => if isHidden c then ['\\', 'u', '\x7b'] ++ hexDigits c.toNat ++ ['\x7d'] else [c]

def quoted (t : Text) : Text := ['"'] ++ t.flatMap quoteChar ++ ['"']

/-- A list in brackets, its items parted by a comma and a blank. -/
def bracketed (items : List Text) : Text := ['['] ++ joinWith [',', ' '] items ++ [']']

end BulkEdit.Text
