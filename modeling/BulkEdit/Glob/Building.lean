import BulkEdit.Glob.Matching
import BulkEdit.Text.Quoted

/-!
# Sets of globs

Globs are matched as a set. A glob that is no plain text is put into an expression, and the expressions are
built before anything is matched: each by itself where every match ends in the same extension, and all
others together. There is a limit to how deeply an expression can be nested, so globs that can be read one
by one need not make a set. How large a set becomes when it is built is not counted here.
-/

namespace BulkEdit.Glob

/-- The characters that have a meaning in an expression. -/
def expressionMarks : Text := "\\.+*?()|[]^$#&-~".toList ++ ['\x7b', '\x7d']

/-- The bytes of a character as an expression spells them. -/
def escapedChar (c : Char) : Text :=
  if c.toNat < 128 then if expressionMarks.contains c then ['\\', c] else [c]
  else (String.utf8EncodeChar c).flatMap fun b => "\\x".toList ++ Text.hexDigits b.toNat

def escapedRange (range : Char × Char) : Text :=
  if range.1 = range.2 then escapedChar range.1
  else escapedChar range.1 ++ ['-'] ++ escapedChar range.2

mutual

def Part.expression : Part → Text
  | .literal c => escapedChar c
  | .anyByte => "[^/]".toList
  | .star => "[^/]*".toList
  | .oneOf negated ranges =>
    ['['] ++ (if negated then ['^'] else []) ++ ranges.flatMap escapedRange ++ [']']
  | .leadingFolders => "(?:/?|.*/)".toList
  | .middleFolders => "(?:/|/.*/)".toList
  | .trailingTree => "/.*".toList
  | .choice [] => []
  | .choice (branch :: others) =>
    "(?:".toList ++ sequenceExpression branch ++ otherExpressions others ++ [')']

def sequenceExpression : List Part → Text
  | [] => []
  | part :: others => part.expression ++ sequenceExpression others

/-- The branches of a choice behind the first. -/
def otherExpressions : List (List Part) → Text
  | [] => []
  | branch :: others => ['|'] ++ sequenceExpression branch ++ otherExpressions others

end

def expression (glob : Glob) : Text :=
  let inside :=
    match glob.parts with
    | [.leadingFolders] => ".*".toList
    | parts => sequenceExpression parts
  "(?-u)^".toList ++ inside ++ ['$']

/-- The number of items that a part is in an expression. -/
def Part.items : Part → Nat
  | .literal c => (String.utf8EncodeChar c).length
  | .trailingTree => 2
  | .choice [] => 0
  | _ => 1

def rowItems : List Part → Nat
  | [] => 0
  | part :: others => part.items + rowItems others

/-- Several items in a row are nested once more than each of them. -/
def rowNesting (parts : List Part) : Nat := if 1 < rowItems parts then 1 else 0

mutual

/-- How deeply the expression of a part is nested. -/
def Part.nesting : Part → Nat
  | .literal _ => 0
  | .anyByte => 1
  | .star => 2
  | .oneOf _ ranges => if 1 < (ranges.flatMap byteRanges).length then 2 else 1
  | .leadingFolders => 4
  | .middleFolders => 4
  | .trailingTree => 1
  | .choice [] => 0
  | .choice [branch] => 1 + (rowNesting branch + deepestPart branch)
  | .choice branches => 2 + deepestBranch branches

def deepestPart : List Part → Nat
  | [] => 0
  | part :: others => max part.nesting (deepestPart others)

def deepestBranch : List (List Part) → Nat
  | [] => 0
  | branch :: others => max (rowNesting branch + deepestPart branch) (deepestBranch others)

end

def nestingLimit : Nat := 250

/-- An expression is a row of its start, its parts and its end. -/
def isTooDeep (glob : Glob) : Bool := nestingLimit < 1 + deepestPart glob.parts

/-- Whether a part can stand in an extension behind the dot. -/
def Part.inExtension : Part → Bool
  | .literal c => c != '.' && c != '/'
  | _ => false

/-- Whether the glob is matched without an expression: as a text, as an end or a beginning of paths, or as
an extension. -/
def isPlain (glob : Glob) : Bool :=
  match glob.parts with
  | .leadingFolders :: .star :: .literal '.' :: rest => rest.all Part.inExtension
  | .leadingFolders :: rest => !rest.isEmpty && rest.all Part.isLiteral
  | parts =>
    parts.dropLast.all Part.isLiteral &&
      match parts.getLast? with
      | some (.literal _) => true
      | some .trailingTree => true
      | _ => false

def endsInExtension (glob : Glob) : Bool :=
  match glob.parts.reverse.dropWhile Part.inExtension with
  | .literal '.' :: _ => true
  | _ => false

/-- Builds a set of globs, which accepts what one of them accepts. A glob that ends in an extension is built
before the others and shown if it is too deep. Of the others only the place is told. -/
def build (globs : List Glob) : Except Text (Text → Bool) :=
  let expressions := globs.filter (!·.isPlain)
  match (expressions.filter endsInExtension).find? isTooDeep with
  | some glob =>
    .error ("error parsing glob '".toList ++ glob.expression ++ "': error parsing pattern 0".toList)
  | none =>
    match (expressions.filter (!endsInExtension ·)).findIdx? isTooDeep with
    | some place => .error ("error parsing pattern ".toList ++ (toString place).toList)
    | none => .ok fun path => globs.any (·.accepts path)

end BulkEdit.Glob
