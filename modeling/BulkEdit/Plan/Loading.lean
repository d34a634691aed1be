import BulkEdit.Plan.Decoding
import BulkEdit.Plan.Validity
import BulkEdit.Toml.Reading

/-!
# Loading plans

A text is a plan when it is TOML, when its table decodes and when nothing is wrong with what it says.
-/

namespace BulkEdit

/-- Why a text is no plan. -/
inductive PlanFault where
  | notToml
  | notAPlan (fault : SchemaFault)
  | invalid (issues : List Issue)
  deriving DecidableEq, Repr

/-- Why no plan was loaded, with the file that it should have come from. -/
inductive PlanFailure where
  | unreadable (file : Path) (fault : StoreFault)
  | faulty (file : Option Path) (fault : PlanFault)
  deriving DecidableEq, Repr

def Plan.ofText (text : Text) : Except PlanFault Plan :=
  match Toml.Reading.read? text with
  | none => .error .notToml
  | some entries =>
    match Plan.ofTable entries with
    | .error fault => .error (.notAPlan fault)
    | .ok plan => if plan.issues.isEmpty then .ok plan else .error (.invalid plan.issues)

namespace PlanFailure

def issuesText (issues : List Issue) : Text := Text.joinWith ['\n'] (issues.map Issue.message)

def inFile (file : Option Path) : Text :=
  match file with
  | none => []
  | some path => " (".toList ++ path.spelling ++ ")".toList

/-- Of a text that cannot be decoded only the file is named. -/
def message : PlanFailure → Text
  | .unreadable file fault =>
    "failed to read plan from ".toList ++ file.spelling ++ ": ".toList ++ fault.message
  | .faulty file (.invalid issues) =>
    "invalid plan".toList ++ inFile file ++ ": ".toList ++ issuesText issues
  | .faulty file _ => "failed to parse plan TOML".toList ++ inFile file

/-- The faults underneath, as far as they have a text. -/
def causes : PlanFailure → List Text
  | .unreadable _ fault => [fault.message]
  | .faulty _ (.invalid issues) => [issuesText issues]
  | .faulty _ _ => []

end PlanFailure

end BulkEdit
