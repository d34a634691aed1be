import BulkEdit.Toml.Scalar

/-!
# Lexemes of TOML

A document is cut into lexemes by an automaton that takes one character at a time. Comments leave
nothing behind. Controls other than the tab stand nowhere, and a carriage return only before a
newline.
-/

namespace BulkEdit.Toml

inductive Lexeme where
  | newline
  | blank (text : Text)
  | equals
  | dot
  | comma
  | openBracket
  | closeBracket
  | openBrace
  | closeBrace
  | bare (text : Text)
  /-- A quoted text, of one line or in three quotes. -/
  | quoted (text : Text) (lines : Bool)
  deriving DecidableEq, Repr

namespace Lexeme

inductive Quote where
  | basic
  | literal
  deriving DecidableEq, Repr

def Quote.char : Quote → Char
  | .basic => '"'
  | .literal => '\''

/-- Where in a quoted text the automaton is. -/
inductive Inside where
  | content
  | escape
  /-- Digits of a character code that are still to come, and the number so far. -/
  | code (left : Nat) (value : Nat)
  /-- Quotes that have been read in a row. -/
  | closing (count : Nat)
  | carriage
  | fresh
  | freshCarriage
  /-- Blank text after a backslash at the end of a line. -/
  | trimming (ended : Bool)
  | trimmingCarriage
  deriving DecidableEq, Repr

/-- Where in a document the automaton is. Texts are kept last character first. -/
inductive Mode where
  | plain
  | bare (text : Text)
  | blank (text : Text)
  | carriage
  | comment
  | commentCarriage
  | opening (quote : Quote) (count : Nat)
  | quoted (quote : Quote) (lines : Bool) (text : Text) (inside : Inside)
  deriving DecidableEq, Repr

/-- The lexemes so far, last first. -/
structure Scan where
  lexemes : List Lexeme
  mode : Mode

def isControl (c : Char) : Bool := (c.toNat < 32 && c != '\t') || c.toNat == 127

def isBareChar (c : Char) : Bool :=
  c.isAlphanum || c == '_' || c == '-' || c == '+' || c == ':'

/-- Takes a character outside of every text, blank and comment. -/
def plainStep (lexemes : List Lexeme) (c : Char) : Option Scan :=
  let symbol (lexeme : Lexeme) : Option Scan := some ⟨lexeme :: lexemes, .plain⟩
  if c = '\n' then symbol .newline
  else if c = '\r' then some ⟨lexemes, .carriage⟩
  else if c = ' ' ∨ c = '\t' then some ⟨lexemes, .blank [c]⟩
  else if c = '#' then some ⟨lexemes, .comment⟩
  else if c = '=' then symbol .equals
  else if c = '.' then symbol .dot
  else if c = ',' then symbol .comma
  else if c = '[' then symbol .openBracket
  else if c = ']' then symbol .closeBracket
  else if c = '\x7b' then symbol .openBrace
  else if c = '\x7d' then symbol .closeBrace
  else if c = '"' then some ⟨lexemes, .opening .basic 1⟩
  else if c = '\'' then some ⟨lexemes, .opening .literal 1⟩
  else if isBareChar c then some ⟨lexemes, .bare [c]⟩
  else none

/-- Takes a character of the content of a quoted text. -/
def contentStep (lexemes : List Lexeme) (quote : Quote) (lines : Bool) (text : Text) (c : Char) :
    Option Scan :=
  let go (text : Text) (inside : Inside) : Option Scan := some ⟨lexemes, .quoted quote lines text inside⟩
  if c = quote.char then
    if lines then go text (.closing 1) else some ⟨.quoted text.reverse false :: lexemes, .plain⟩
  else if c = '\\' ∧ quote = .basic then go text .escape
  else if c = '\n' then (if lines then go (c :: text) .content else none)
  else if c = '\r' then (if lines then go text .carriage else none)
  else if isControl c then none
  else go (c :: text) .content

/-- The character that a letter after a backslash stands for. -/
def escaped? (c : Char) : Option Char :=
  match c with
  | 'b' => some '\x08'
  | 't' => some '\t'
  | 'n' => some '\n'
  | 'f' => some '\x0c'
  | 'r' => some '\r'
  | 'e' => some '\x1b'
  | '"' => some '"'
  | '\\' => some '\\'
  | _ => none

/-- The character with a code, if it is the code of one. -/
def ofCode? (n : Nat) : Option Char := if n.isValidChar then some (Char.ofNat n) else none

/-- Takes a character inside of a quoted text. -/
def quotedStep (lexemes : List Lexeme) (quote : Quote) (lines : Bool) (text : Text) (inside : Inside)
    (c : Char) : Option Scan :=
  let go (text : Text) (inside : Inside) : Option Scan := some ⟨lexemes, .quoted quote lines text inside⟩
  let isBlank := c = ' ' ∨ c = '\t'
  match inside with
  | .content => contentStep lexemes quote lines text c
  | .escape =>
    match escaped? c with
    | some e => go (e :: text) .content
    | none =>
      if c = 'x' then go text (.code 2 0)
      else if c = 'u' then go text (.code 4 0)
      else if c = 'U' then go text (.code 8 0)
      else if lines ∧ isBlank then go text (.trimming false)
      else if lines ∧ c = '\n' then go text (.trimming true)
      else if lines ∧ c = '\r' then go text .trimmingCarriage
      else none
  | .code left value =>
    (Scalar.digit? c).bind fun d =>
      let value := value * 16 + d
      if left ≤ 1 then (ofCode? value).bind fun e => go (e :: text) .content
      else go text (.code (left - 1) value)
  | .closing count =>
    if c = quote.char then
      if count = 4 then some ⟨.quoted (c :: c :: text).reverse true :: lexemes, .plain⟩
      else go text (.closing (count + 1))
    else if 3 ≤ count then
      plainStep (.quoted (List.replicate (count - 3) quote.char ++ text).reverse true :: lexemes) c
    else contentStep lexemes quote lines (List.replicate count quote.char ++ text) c
  | .carriage => if c = '\n' then go (c :: '\r' :: text) .content else none
  | .fresh =>
    if c = '\n' then go text .content
    else if c = '\r' then go text .freshCarriage
    else contentStep lexemes quote lines text c
  | .freshCarriage => if c = '\n' then go text .content else none
  | .trimming ended =>
    if isBlank then go text (.trimming ended)
    else if c = '\n' then go text (.trimming true)
    else if c = '\r' then go text .trimmingCarriage
    else if ended then contentStep lexemes quote lines text c
    else none
  | .trimmingCarriage => if c = '\n' then go text (.trimming true) else none

def step (scan : Scan) (c : Char) : Option Scan :=
  match scan.mode with
  | .plain => plainStep scan.lexemes c
  | .bare text =>
    if isBareChar c then some { scan with mode := .bare (c :: text) }
    else plainStep (.bare text.reverse :: scan.lexemes) c
  | .blank text =>
    if c = ' ' ∨ c = '\t' then some { scan with mode := .blank (c :: text) }
    else plainStep (.blank text.reverse :: scan.lexemes) c
  | .carriage => if c = '\n' then some ⟨.newline :: scan.lexemes, .plain⟩ else none
  | .comment =>
    if c = '\n' then some ⟨.newline :: scan.lexemes, .plain⟩
    else if c = '\r' then some { scan with mode := .commentCarriage }
    else if isControl c then none
    else some scan
  | .commentCarriage => if c = '\n' then some ⟨.newline :: scan.lexemes, .plain⟩ else none
  | .opening quote count =>
    if c = quote.char then
      if count = 1 then some { scan with mode := .opening quote 2 }
      else some { scan with mode := .quoted quote true [] .fresh }
    else if count = 1 then contentStep scan.lexemes quote false [] c
    else plainStep (.quoted [] false :: scan.lexemes) c
  | .quoted quote lines text inside => quotedStep scan.lexemes quote lines text inside c

/-- The lexemes of a document that ends here. -/
def finish (scan : Scan) : Option (List Lexeme) :=
  match scan.mode with
  | .plain => some scan.lexemes.reverse
  | .bare text => some (Lexeme.bare text.reverse :: scan.lexemes).reverse
  | .blank _ => some scan.lexemes.reverse
  | .comment => some scan.lexemes.reverse
  | .opening _ 2 => some (Lexeme.quoted [] false :: scan.lexemes).reverse
  | .quoted quote true text (.closing count) =>
    if 3 ≤ count then
      some (Lexeme.quoted (List.replicate (count - 3) quote.char ++ text).reverse true ::
        scan.lexemes).reverse
    else none
  | _ => none

/-- A mark of the byte order at the start is no part of the document. -/
def withoutByteOrderMark (text : Text) : Text :=
  match text with
  | c :: rest => if c.toNat = 0xfeff then rest else text
  | [] => []

def all? (text : Text) : Option (List Lexeme) :=
  ((withoutByteOrderMark text).foldlM step ⟨[], .plain⟩).bind finish

end Lexeme

end BulkEdit.Toml
