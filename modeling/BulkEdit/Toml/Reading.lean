import BulkEdit.Toml.Document
import BulkEdit.Toml.Lexeme

/-!
# Reading TOML

The lexemes of a document are taken one at a time. Arrays and inline tables that are still open are
kept on a stack, so that the depth of nesting is the height of the stack.
-/

namespace BulkEdit.Toml.Reading

/-- The greatest depth of nesting, and the greatest number of parts in a key. -/
def depthLimit : Nat := 80

/-- A key: the parts before the last one, and the last one. -/
structure Key where
  path : List Text
  last : Text

/-- A container that is still open: an array with its items, last first, or an inline table with the
key whose value is being read. -/
inductive Container where
  | array (items : List Value)
  | table (entries : Entries) (key : Key)

/-- What a key is read for. -/
inductive Use where
  | assignment
  | header
  | elementHeader
  deriving DecidableEq

/-- What may come next. -/
inductive Expected where
  | statement
  | headerStart
  /-- A part of a key. The parts so far stand last first. -/
  | keyPart (use : Use) (parts : List Text)
  | keyEnd (use : Use) (parts : List Text)
  | secondBracket (key : Key)
  | value
  | scalar (text : Text)
  | scalarBlank (text : Text)
  | lineEnd
  | item
  | itemEnd
  | inlineKey (entries : Entries)
  | inlineEnd (entries : Entries)

structure Draft where
  document : Entries
  /-- The header in force. -/
  header : List Text
  /-- The key of the statement whose value is being read. -/
  key : Key
  /-- The inline table whose next key is being read. -/
  inline : Option Entries
  containers : List Container
  expected : Expected

def Draft.start : Draft := ⟨[], [], ⟨[], []⟩, none, [], .statement⟩

def isKeyChar (c : Char) : Bool := c.isAlphanum || c == '_' || c == '-'

/-- The part of a key that a lexeme is. -/
def keyPart? : Lexeme → Option Text
  | .bare text => if text.all isKeyChar then some text else none
  | .quoted text false => some text
  | _ => none

/-- The key with the parts, which stand last first. -/
def keyOf? : List Text → Option Key
  | [] => none
  | last :: earlier => if depthLimit < earlier.length + 1 then none else some ⟨earlier.reverse, last⟩

/-- Puts a finished value where it belongs. -/
def complete (draft : Draft) (value : Value) : Option Draft :=
  match draft.containers with
  | [] => do
    let document ← Entries.within (Entries.addValue value draft.key.last draft.key.path) draft.header
      draft.document
    pure { draft with document, expected := .lineEnd }
  | .array items :: outer =>
    some { draft with containers := .array (value :: items) :: outer, expected := .itemEnd }
  | .table entries key :: outer => do
    let entries ← Entries.addValue value key.last key.path entries
    pure { draft with containers := outer, expected := .inlineEnd entries }

def completeScalar (draft : Draft) (text : Text) : Option Draft :=
  (Scalar.value? text).bind (complete draft)

/-- The inside of an inline table does not count among the open containers while its key is read. -/
def depth (draft : Draft) : Nat := draft.containers.length

/-- Opens an array or an inline table. -/
def openArray (draft : Draft) : Option Draft :=
  if depthLimit ≤ depth draft then none
  else some { draft with containers := .array [] :: draft.containers, expected := .item }

def openTable (draft : Draft) : Option Draft :=
  if depthLimit ≤ depth draft then none else some { draft with expected := .inlineKey [] }

/-- Closes the innermost array. -/
def closeArray (draft : Draft) : Option Draft :=
  match draft.containers with
  | .array items :: outer => complete { draft with containers := outer } (.array items.reverse)
  | _ => none

def closeTable (draft : Draft) (entries : Entries) : Option Draft :=
  complete draft (.table (entriesToValues entries))

/-- Takes the first lexeme of a value. -/
def valueStep (draft : Draft) (lexeme : Lexeme) : Option Draft :=
  match lexeme with
  | .quoted text _ => complete draft (.string text)
  | .bare text => some { draft with expected := .scalar text }
  | .openBracket => openArray draft
  | .openBrace => openTable draft
  | _ => none

/-- Takes a lexeme after a finished value. -/
def settledStep (draft : Draft) (lexeme : Lexeme) : Option Draft :=
  match draft.expected, lexeme with
  | _, .blank _ => some draft
  | .lineEnd, .newline => some { draft with expected := .statement }
  | .itemEnd, .newline => some draft
  | .itemEnd, .comma => some { draft with expected := .item }
  | .itemEnd, .closeBracket => closeArray draft
  | .inlineEnd _, .newline => some draft
  | .inlineEnd entries, .comma => some { draft with expected := .inlineKey entries }
  | .inlineEnd entries, .closeBrace => closeTable draft entries
  | _, _ => none

/-- Takes the equals sign after a key. The value belongs to the inline table being read, if one is. -/
def assign (draft : Draft) (key : Key) : Draft :=
  match draft.inline with
  | none => { draft with key, expected := .value }
  | some entries =>
    { draft with
      inline := none, containers := .table entries key :: draft.containers, expected := .value }

/-- Takes the end of a key. -/
def endKey (draft : Draft) (use : Use) (key : Key) (lexeme : Lexeme) : Option Draft :=
  match use, lexeme with
  | .assignment, .equals => some (assign draft key)
  | .header, .closeBracket => do
    let document ← Entries.within (Entries.openTable key.last) key.path draft.document
    pure { draft with document, header := key.path ++ [key.last], expected := .lineEnd }
  | .elementHeader, .closeBracket => some { draft with expected := .secondBracket key }
  | _, _ => none

def step (draft : Draft) (lexeme : Lexeme) : Option Draft :=
  match draft.expected, lexeme with
  | .scalar text, .bare more => some { draft with expected := .scalar (text ++ more) }
  | .scalar text, .dot => some { draft with expected := .scalar (text ++ ['.']) }
  | .scalar text, .blank blank =>
    if blank = [' '] ∧ Scalar.isDateShaped text then some { draft with expected := .scalarBlank text }
    else completeScalar draft text
  | .scalar text, lexeme => (completeScalar draft text).bind (settledStep · lexeme)
  | .scalarBlank text, .bare more =>
    if more.head?.any Scalar.isDecimal then
      some { draft with expected := .scalar (text ++ ' ' :: more) }
    else none
  | .scalarBlank text, lexeme => (completeScalar draft text).bind (settledStep · lexeme)
  | .headerStart, .openBracket => some { draft with expected := .keyPart .elementHeader [] }
  | .headerStart, .blank _ => some { draft with expected := .keyPart .header [] }
  | .headerStart, lexeme =>
    (keyPart? lexeme).map fun part => { draft with expected := .keyEnd .header [part] }
  | .secondBracket key, .closeBracket => do
    let document ← Entries.within (Entries.openElement key.last) key.path draft.document
    pure { draft with document, header := key.path ++ [key.last], expected := .lineEnd }
  | .secondBracket _, _ => none
  | _, .blank _ => some draft
  | .statement, .newline => some draft
  | .statement, .openBracket => some { draft with expected := .headerStart }
  | .statement, lexeme =>
    (keyPart? lexeme).map fun part => { draft with expected := .keyEnd .assignment [part] }
  | .keyPart use parts, lexeme =>
    (keyPart? lexeme).map fun part => { draft with expected := .keyEnd use (part :: parts) }
  | .keyEnd use parts, .dot => some { draft with expected := .keyPart use parts }
  | .keyEnd use parts, lexeme => (keyOf? parts).bind fun key => endKey draft use key lexeme
  | .value, lexeme => valueStep draft lexeme
  | .item, .newline => some draft
  | .item, .closeBracket => closeArray draft
  | .item, lexeme => valueStep draft lexeme
  | .inlineKey _, .newline => some draft
  | .inlineKey entries, .closeBrace => closeTable draft entries
  | .inlineKey entries, lexeme =>
    (keyPart? lexeme).map fun part =>
      { draft with inline := some entries, expected := .keyEnd .assignment [part] }
  | .lineEnd, lexeme => settledStep draft lexeme
  | .itemEnd, lexeme => settledStep draft lexeme
  | .inlineEnd _, lexeme => settledStep draft lexeme

/-- The entries of a document that ends here. -/
def finish (draft : Draft) : Option Entries :=
  match draft.expected with
  | .statement => some draft.document
  | .lineEnd => some draft.document
  | .scalar text => ended (completeScalar draft text)
  | .scalarBlank text => ended (completeScalar draft text)
  | _ => none
where
  ended (draft? : Option Draft) : Option Entries :=
    draft?.bind fun draft =>
      match draft.expected with
      | .lineEnd => some draft.document
      | _ => none

/-- The entries of the table that a document is, or none where the text is not TOML. -/
def read? (text : Text) : Option (List (Text × Value)) := do
  let lexemes ← Lexeme.all? text
  let draft ← lexemes.foldlM step Draft.start
  let entries ← finish draft
  pure (entriesToValues entries)

end BulkEdit.Toml.Reading
