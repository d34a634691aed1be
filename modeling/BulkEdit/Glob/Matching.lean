import BulkEdit.Glob.Basic
import BulkEdit.Text.Bytes

/-!
# Matching globs

A part takes a first stretch of the bytes and leaves a rest; a glob matches when its parts one after
another can leave nothing. All rests that can be left are kept together, the longest first. They are
rests of one text, so they are told apart by their lengths.
-/

namespace BulkEdit.Glob

abbrev Bytes := List UInt8

def slash : UInt8 := 47

/-- The rests after any number of bytes with `p`. -/
def restsWhile (p : UInt8 → Bool) : Bytes → List Bytes
  | [] => [[]]
  | b :: rest => (b :: rest) :: if p b then restsWhile p rest else []

/-- The rests after each slash. -/
def restsAfterSlashes : Bytes → List Bytes
  | [] => []
  | b :: rest => if b = slash then rest :: restsAfterSlashes rest else restsAfterSlashes rest

/-- Rests without those that repeat the one before them. -/
def distinct : List Bytes → List Bytes
  | rest :: next :: others =>
    if rest.length = next.length then distinct (next :: others)
    else rest :: distinct (next :: others)
  | rests => rests

def union (rests others : List Bytes) : List Bytes :=
  distinct (rests.merge others fun rest other => other.length ≤ rest.length)

/-- The rests after any number of bytes with `p` from each of the rests. Those that are no shorter than
`covered` have been counted already. -/
def restsAfterRuns (p : UInt8 → Bool) (covered : Nat) : List Bytes → List Bytes
  | [] => []
  | rest :: others =>
    if covered ≤ rest.length then restsAfterRuns p covered others
    else
      let run := restsWhile p rest
      run ++ restsAfterRuns p (rest.length + 1 - run.length) others

/-- The byte ranges of a class. A character of several bytes stands for each of them, and a minus sign
joins the last byte before it to the first byte after it. -/
def byteRanges (range : Char × Char) : List (UInt8 × UInt8) :=
  let single (bytes : Bytes) := bytes.map fun b => (b, b)
  let first := String.utf8EncodeChar range.1
  let last := String.utf8EncodeChar range.2
  if range.1 = range.2 then single first
  else
    single first.dropLast ++ (first.getLast?.toList.zip last.head?.toList) ++ single last.tail

def inClass (negated : Bool) (ranges : List (Char × Char)) (b : UInt8) : Bool :=
  let found := (ranges.flatMap byteRanges).any fun (first, last) => first ≤ b && b ≤ last
  if negated then !found else found

/-- What is left of `bytes` after the bytes of a character, if they come first. -/
def afterChar? (c : Char) (bytes : Bytes) : Option Bytes :=
  let first := String.utf8EncodeChar c
  if first.isPrefixOf bytes then some (bytes.drop first.length) else none

/-- What is left after one byte with `p`. -/
def afterByte? (p : UInt8 → Bool) : Bytes → Option Bytes
  | b :: rest => if p b then some rest else none
  | [] => none

/-- The longest of the rests after a slash. -/
def afterFirstSlash? (rests : List Bytes) : Option Bytes := rests.findSome? (afterByte? (· == slash))

mutual

/-- The rests that a part can leave of any of the rests. -/
def Part.rests : Part → List Bytes → List Bytes
  | .literal c, rests => rests.filterMap (afterChar? c)
  | .anyByte, rests => rests.filterMap (afterByte? (· != slash))
  | .star, rests =>
    match rests with
    | [] => []
    | rest :: _ => restsAfterRuns (· != slash) (rest.length + 1) rests
  | .oneOf negated ranges, rests => rests.filterMap (afterByte? (inClass negated ranges))
  | .leadingFolders, rests =>
    match rests with
    | [] => []
    | rest :: _ => union rests (restsAfterSlashes rest)
  | .middleFolders, rests =>
    match afterFirstSlash? rests with
    | none => []
    | some rest => rest :: restsAfterSlashes rest
  | .trailingTree, rests =>
    match afterFirstSlash? rests with
    | none => []
    | some rest => restsWhile (fun _ => true) rest
  | .choice [], rests => rests
  | .choice (branch :: others), rests => choiceRests (branch :: others) rests

/-- The rests that the parts one after another can leave. -/
def sequenceRests : List Part → List Bytes → List Bytes
  | [], rests => rests
  | part :: others, rests => sequenceRests others (part.rests rests)

/-- The rests that one of the branches can leave. -/
def choiceRests : List (List Part) → List Bytes → List Bytes
  | [], _ => []
  | branch :: others, rests => union (sequenceRests branch rests) (choiceRests others rests)

end

/-- A double star alone matches everything. -/
def matchesBytes (glob : Glob) (bytes : Bytes) : Bool :=
  match glob.parts with
  | [.leadingFolders] => true
  | parts => (sequenceRests parts [bytes]).any List.isEmpty

def Part.isLiteral : Part → Bool
  | .literal _ => true
  | _ => false

/-- Whether the glob asks for the name of a file: as the one literal after leading folders, or by a
literal dot at its end after a part that is no literal. -/
def asksForName (glob : Glob) : Bool :=
  match glob.parts with
  | .leadingFolders :: rest =>
    if rest.all Part.isLiteral then
      !rest.isEmpty && rest.all fun
        | .literal c => c != '/'
        | _ => true
    else endsInDot rest
  | parts => !parts.all Part.isLiteral && endsInDot parts
where
  endsInDot (parts : List Part) : Bool :=
    match parts.getLast? with
    | some (.literal c) => c == '.'
    | _ => false

/-- Whether the glob matches the whole of a path. Two dots are not the name of a file. -/
def accepts (glob : Glob) (path : Text) : Bool :=
  if glob.asksForName && (path.pieces '/').getLast? == some ['.', '.'] then false
  else glob.matchesBytes path.utf8

end BulkEdit.Glob
