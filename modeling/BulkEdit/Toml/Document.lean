import BulkEdit.Toml.Value

/-!
# Documents of TOML in the making

A document grows by values under dotted keys and by the headers of tables. What may be added to a
table depends on how it came to be: a table with a header of its own is complete, one that only a
longer header or a dotted key has named can still be extended in the same way.
-/

namespace BulkEdit.Toml

inductive Origin where
  | header
  | longerHeader
  | dottedKey
  deriving DecidableEq, Repr

/-- What stands under a key: a finished value, a table, or tables in an array, the last one first. -/
inductive Item where
  | value (value : Value)
  | table (origin : Origin) (entries : List (Text × Item))
  | tables (elements : List (List (Text × Item)))

abbrev Entries := List (Text × Item)

mutual

def Item.toValue : Item → Value
  | .value value => value
  | .table _ entries => .table (entriesToValues entries)
  | .tables elements => .array (elementsToValues elements).reverse

def entriesToValues : List (Text × Item) → List (Text × Value)
  | [] => []
  | (key, item) :: rest => (key, item.toValue) :: entriesToValues rest

def elementsToValues : List (List (Text × Item)) → List Value
  | [] => []
  | entries :: rest => .table (entriesToValues entries) :: elementsToValues rest

end

namespace Entries

def get? (entries : Entries) (key : Text) : Option Item :=
  (entries.find? fun entry => entry.1 == key).map Prod.snd

/-- Puts an item under a key, in the place of the old one if there is one. -/
def put (entries : Entries) (key : Text) (item : Item) : Entries :=
  match entries with
  | [] => [(key, item)]
  | (other, old) :: rest => if other = key then (key, item) :: rest else (other, old) :: put rest key item

/-- Adds a value under a dotted key, whose last part is `key`. The table that takes it has been named
by dotted keys alone; on the way there may be tables that longer headers have named, and the last table
of an array. -/
def addValue (value : Value) (key : Text) : List Text → Entries → Option Entries
  | [], entries =>
    match get? entries key with
    | none => some (put entries key (.value value))
    | some _ => none
  | part :: path, entries =>
    match get? entries part with
    | none => do
      let inner ← addValue value key path []
      pure (put entries part (.table .dottedKey inner))
    | some (.table origin inner) =>
      if origin = .header ∨ (path = [] ∧ origin ≠ .dottedKey) then none
      else do
        let inner ← addValue value key path inner
        pure (put entries part (.table origin inner))
    | some (.tables (last :: earlier)) =>
      if path = [] then none
      else do
        let last ← addValue value key path last
        pure (put entries part (.tables (last :: earlier)))
    | some _ => none

/-- Changes the table that a header names, which is the last one where there are several. -/
def within (change : Entries → Option Entries) : List Text → Entries → Option Entries
  | [], entries => change entries
  | part :: path, entries =>
    match get? entries part with
    | none => do
      let inner ← within change path []
      pure (put entries part (.table .longerHeader inner))
    | some (.table origin inner) => do
      let inner ← within change path inner
      pure (put entries part (.table origin inner))
    | some (.tables (last :: earlier)) => do
      let last ← within change path last
      pure (put entries part (.tables (last :: earlier)))
    | some _ => none

/-- Opens the table under a key by its header. One that longer headers have named comes after all
others now. -/
def openTable (key : Text) (entries : Entries) : Option Entries :=
  match get? entries key with
  | none => some (put entries key (.table .header []))
  | some (.table .longerHeader inner) =>
    some (entries.filter (·.1 != key) ++ [(key, .table .header inner)])
  | some _ => none

/-- Opens another table in the array under a key by its header. -/
def openElement (key : Text) (entries : Entries) : Option Entries :=
  match get? entries key with
  | none => some (put entries key (.tables [[]]))
  | some (.tables elements) => some (put entries key (.tables ([] :: elements)))
  | some _ => none

end Entries

end BulkEdit.Toml
