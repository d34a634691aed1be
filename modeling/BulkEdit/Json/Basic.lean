import BulkEdit.Text.Quoted

/-!
# JSON

Values of JSON and their text over several lines, in which every level is indented by two blanks more.
An object keeps its members in order. Only quotes, backslashes and controls are escaped.
-/

namespace BulkEdit

inductive Json where
  | null
  | boolean (value : Bool)
  | natural (value : Nat)
  | string (text : Text)
  | array (items : List Json)
  | object (members : List (Text × Json))
  deriving Repr

namespace Json

/-- A character in a string. Controls without a short form are written by their code. -/
def stringChar (c : Char) : Text :=
  match c with
  | '"' => ['\\', '"']
  | '\\' => ['\\', '\\']
  | '\x08' => ['\\', 'b']
  | '\x0c' => ['\\', 'f']
  | '\n' => ['\\', 'n']
  | '\r' => ['\\', 'r']
  | '\t' => ['\\', 't']
  | c =>
    if c.toNat < 32 then
      let digits := Text.hexDigits c.toNat
      ['\\', 'u'] ++ List.replicate (4 - digits.length) '0' ++ digits
    else [c]

def stringText (t : Text) : Text := ['"'] ++ t.flatMap stringChar ++ ['"']

def indent (level : Nat) : Text := List.replicate (2 * level) ' '

/-- Parts on lines of their own between brackets. -/
def block (opening closing : Char) (level : Nat) (parts : List Text) : Text :=
  match parts with
  | [] => [opening, closing]
  | parts =>
    [opening, '\n'] ++
      Text.joinWith [',', '\n'] (parts.map fun part => indent (level + 1) ++ part) ++
      ['\n'] ++ indent level ++ [closing]

mutual

/-- The text of a value that stands at a level of nesting. -/
def textAt (level : Nat) : Json → Text
  | .null => "null".toList
  | .boolean value => (toString value).toList
  | .natural value => (toString value).toList
  | .string text => stringText text
  | .array items => block '[' ']' level (itemTexts (level + 1) items)
  | .object members => block '\x7b' '\x7d' level (memberTexts (level + 1) members)

def itemTexts (level : Nat) : List Json → List Text
  | [] => []
  | item :: rest => textAt level item :: itemTexts level rest

def memberTexts (level : Nat) : List (Text × Json) → List Text
  | [] => []
  | (key, value) :: rest =>
    (stringText key ++ [':', ' '] ++ textAt level value) :: memberTexts level rest

end

def text (value : Json) : Text := textAt 0 value

end Json

end BulkEdit
