import BulkEdit.Decimal.Binary64

/-!
# TOML values

A table keeps its keys in the order of the document. Dates and times are kept as they were written.
-/

namespace BulkEdit.Toml

inductive Value where
  | string (text : Text)
  | integer (value : Int)
  | float (value : Binary64)
  | boolean (value : Bool)
  | dateTime (text : Text)
  | array (items : List Value)
  | table (entries : List (Text × Value))
  deriving Repr

end BulkEdit.Toml
