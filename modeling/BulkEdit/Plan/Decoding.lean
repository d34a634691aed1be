import BulkEdit.Decimal.Shortest
import BulkEdit.Failure
import BulkEdit.Plan.Basic
import BulkEdit.Toml.Value

/-!
# Plans from tables

A plan is decoded from a table. The entries are taken in the order of the document, so the first entry
that does not fit is the one reported; fields that are missing come after that. Keys that a plan does
not have are passed over. The tables within a plan may also be written as arrays of their fields.
-/

namespace BulkEdit

/-- A value as far as a message describes it. -/
inductive Shape where
  | string (text : Text)
  | integer (value : Int)
  | float (value : Binary64)
  | boolean (value : Bool)
  | sequence
  | map
  deriving DecidableEq, Repr

/-- What a value was needed for. -/
inductive Need where
  | string
  | sequence
  | lineNumber
  | metadata
  | rule
  deriving DecidableEq, Repr

/-- Kinds of values that are neither tables nor arrays. -/
inductive ScalarKind where
  | string
  | integer
  | float
  | boolean
  | dateTime
  deriving DecidableEq, Repr

/-- Why a document is no plan. -/
inductive SchemaFault where
  | missingField (name : Text)
  | missingPlace (length : Nat)
  | unknownChoice (found : Text) (known : List Text)
  | unfit (found : Shape) (need : Need)
  | negativeNumber (value : Int)
  | choiceUnnamed
  | choiceEmpty
  | choiceAmbiguous
  | choiceWithContent
  | choiceWithScalar (kind : ScalarKind)
  deriving DecidableEq, Repr

def ticked (t : Text) : Text := ['\x60'] ++ t ++ ['\x60']

def integerText (n : Int) : Text := (toString n).toList

def Shape.message : Shape → Text
  | .string text => "string ".toList ++ text.quoted
  | .integer value => "integer ".toList ++ ticked (integerText value)
  | .float value => "floating point ".toList ++ ticked value.toText
  | .boolean value => "boolean ".toList ++ ticked (toString value).toList
  | .sequence => "sequence".toList
  | .map => "map".toList

def Need.message : Need → Text
  | .string => "a string".toList
  | .sequence => "a sequence".toList
  | .lineNumber => "usize".toList
  | .metadata => "struct Metadata".toList
  | .rule => "struct RuleDefinition".toList

def ScalarKind.message : ScalarKind → Text
  | .string => "string".toList
  | .integer => "integer".toList
  | .float => "float".toList
  | .boolean => "boolean".toList
  | .dateTime => "datetime".toList

/-- The choices that there are, as a message lists them. -/
def choicesText (known : List Text) : Text :=
  match known with
  | [one, other] => ticked one ++ " or ".toList ++ ticked other
  | _ => "one of ".toList ++ Text.joinWith ", ".toList (known.map ticked)

def SchemaFault.message : SchemaFault → Text
  | .missingField name => "missing field ".toList ++ ticked name
  | .missingPlace length =>
    "invalid length ".toList ++ decimal length ++
      ", expected struct RuleDefinition with 7 elements".toList
  | .unknownChoice found known =>
    "unknown variant ".toList ++ ticked found ++ ", expected ".toList ++ choicesText known
  | .unfit found need =>
    "invalid type: ".toList ++ found.message ++ ", expected ".toList ++ need.message
  | .negativeNumber value =>
    "invalid value: integer ".toList ++ ticked (integerText value) ++ ", expected usize".toList
  | .choiceUnnamed => "wanted string or table".toList
  | .choiceEmpty => "wanted exactly 1 element, found 0 elements".toList
  | .choiceAmbiguous => "wanted exactly 1 element, more than 1 element".toList
  | .choiceWithContent => "expected empty table".toList
  | .choiceWithScalar kind => "expected table, found ".toList ++ kind.message

namespace Toml.Value

def shape : Value → Shape
  | .string text => .string text
  | .integer value => .integer value
  | .float value => .float value
  | .boolean value => .boolean value
  | .dateTime _ => .map
  | .array _ => .sequence
  | .table _ => .map

def asText : Value → Except SchemaFault Text
  | .string text => .ok text
  | value => .error (.unfit value.shape .string)

def asList : Value → Except SchemaFault (List Value)
  | .array items => .ok items
  | value => .error (.unfit value.shape .sequence)

def asLineNumber : Value → Except SchemaFault Nat
  | .integer (.ofNat n) => .ok n
  | .integer value => .error (.negativeNumber value)
  | value => .error (.unfit value.shape .lineNumber)

def listOf {α : Type} (item : Value → Except SchemaFault α) (value : Value) :
    Except SchemaFault (List α) := do
  let items ← value.asList
  items.mapM item

/-- What may stand under the name of a choice, which is nothing. -/
def asNothing : Value → Except SchemaFault Unit
  | .table [] => .ok ()
  | .array [] => .ok ()
  | .table _ => .error .choiceWithContent
  | .array _ => .error .choiceWithContent
  | .string _ => .error (.choiceWithScalar .string)
  | .integer _ => .error (.choiceWithScalar .integer)
  | .float _ => .error (.choiceWithScalar .float)
  | .boolean _ => .error (.choiceWithScalar .boolean)
  | .dateTime _ => .error (.choiceWithScalar .dateTime)

def named {α : Type} (choices : List (Text × α)) (name : Text) : Except SchemaFault α :=
  match choices.find? (·.1 == name) with
  | some choice => .ok choice.2
  | none => .error (.unknownChoice name (choices.map Prod.fst))

/-- One of several choices: its name, or a table with its name as the only key. -/
def asChoice {α : Type} (choices : List (Text × α)) : Value → Except SchemaFault α
  | .string name => named choices name
  | .table [(name, content)] => do
    let choice ← named choices name
    content.asNothing
    pure choice
  | .table [] => .error .choiceEmpty
  | .table _ => .error .choiceAmbiguous
  | _ => .error .choiceUnnamed

end Toml.Value

namespace Plan

open Toml (Value)

/-- What a plan says about itself. -/
structure Metadata where
  name : Text
  description : Option Text
  deriving DecidableEq, Repr

def Metadata.empty : Metadata := ⟨[], none⟩

def Metadata.take (about : Metadata) (entry : Text × Value) : Except SchemaFault Metadata :=
  if entry.1 = "name".toList then do pure { about with name := ← entry.2.asText }
  else if entry.1 = "description".toList then do
    pure { about with description := some (← entry.2.asText) }
  else pure about

/-- Values in the places of fields. What is left over counts for nothing. -/
def inPlaces (fields : List Text) (items : List Value) : List (Text × Value) := fields.zip items

def Metadata.fields : List Text := ["name".toList, "description".toList]

/-- A date is taken for a table that has none of the fields. -/
def Metadata.ofValue : Value → Except SchemaFault Metadata
  | .table entries => entries.foldlM Metadata.take .empty
  | .array items => (inPlaces Metadata.fields items).foldlM Metadata.take .empty
  | .dateTime _ => .ok .empty
  | value => .error (.unfit value.shape .metadata)

def scopes : List (Text × Granularity) := [("file".toList, .wholeFile), ("line".toList, .line)]

def manners : List (Text × Manner) :=
  [("first".toList, .first), ("all".toList, .every), ("whole-line".toList, .wholeLine)]

/-- The fields of a rule that have been found. -/
structure RuleDraft where
  id : Option Text
  scope : Option Granularity
  manner : Manner
  search : Option Text
  replacement : Option Text
  lines : Option (List Nat)
  contains : Option Text

def RuleDraft.empty : RuleDraft := ⟨none, none, .first, none, none, none, none⟩

def RuleDraft.fields : List Text :=
  ["id".toList, "scope".toList, "mode".toList, "search".toList, "replace".toList, "lines".toList,
    "contains".toList]

def RuleDraft.take (draft : RuleDraft) (entry : Text × Value) : Except SchemaFault RuleDraft :=
  let (key, value) := entry
  if key = "id".toList then do pure { draft with id := some (← value.asText) }
  else if key = "scope".toList then do pure { draft with scope := some (← value.asChoice scopes) }
  else if key = "mode".toList then do pure { draft with manner := ← value.asChoice manners }
  else if key = "search".toList then do pure { draft with search := some (← value.asText) }
  else if key = "replace".toList then do pure { draft with replacement := some (← value.asText) }
  else if key = "lines".toList then do
    pure { draft with lines := some (← value.listOf Value.asLineNumber) }
  else if key = "contains".toList then do pure { draft with contains := some (← value.asText) }
  else pure draft

/-- The rule, if every field is there that has to be. `missing` says what the lack of a field means. -/
def RuleDraft.finish (missing : Text → SchemaFault) (draft : RuleDraft) : Except SchemaFault Rule :=
  match draft.id, draft.scope, draft.replacement with
  | none, _, _ => .error (missing "id".toList)
  | some _, none, _ => .error (missing "scope".toList)
  | some _, some _, none => .error (missing "replace".toList)
  | some id, some scope, some replacement =>
    .ok ⟨id, scope, draft.manner, draft.search, replacement, draft.lines, draft.contains⟩

/-- In an array a field is missing by its place. -/
def missingPlace (name : Text) : SchemaFault := .missingPlace (RuleDraft.fields.idxOf name)

def ruleOfValue : Value → Except SchemaFault Rule
  | .table entries => do
    let draft ← entries.foldlM RuleDraft.take .empty
    draft.finish .missingField
  | .array items => do
    let draft ← (inPlaces RuleDraft.fields items).foldlM RuleDraft.take .empty
    draft.finish missingPlace
  | .dateTime _ => .error (.missingField "id".toList)
  | value => .error (.unfit value.shape .rule)

def empty : Plan := ⟨[], none, [], []⟩

def take (plan : Plan) (entry : Text × Value) : Except SchemaFault Plan :=
  let (key, value) := entry
  if key = "meta".toList then do
    let about ← Metadata.ofValue value
    pure { plan with name := about.name, description := about.description }
  else if key = "files".toList then do pure { plan with patterns := ← value.listOf Value.asText }
  else if key = "rules".toList then do pure { plan with rules := ← value.listOf ruleOfValue }
  else pure plan

def ofTable (entries : List (Text × Value)) : Except SchemaFault Plan := entries.foldlM take .empty

end Plan

end BulkEdit
