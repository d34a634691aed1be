import BulkEdit.Plan.Loading

/-!
# Problems

What ends a command before its time, and how it is told: the message, and under it the causes, one
indented, several numbered.
-/

namespace BulkEdit.CommandLine

inductive Problem where
  | noRoot (path : Path) (fault : StoreFault)
  | plan (failure : PlanFailure)
  | batch (failure : Failure)
  deriving DecidableEq, Repr

namespace Problem

def message : Problem → Text
  | .noRoot path _ => "root directory not found: ".toList ++ path.spelling
  | .plan failure => failure.message
  | .batch failure => failure.message

def causes : Problem → List Text
  | .noRoot _ fault => [fault.message]
  | .plan failure => failure.causes
  | .batch failure => failure.causes

/-- The lines of a text with `first` before the first one and `others` before the others. -/
def indented (first others : Text) (text : Text) : Text :=
  match text.pieces '\n' with
  | [] => first
  | line :: rest => Text.joinWith ['\n'] ((first ++ line) :: rest.map (others ++ ·))

def numbered (place : Nat) (cause : Text) : Text :=
  let digits := decimal place
  indented (List.replicate (5 - digits.length) ' ' ++ digits ++ ": ".toList)
    (List.replicate 7 ' ') cause

def causesText : List Text → Text
  | [] => []
  | [cause] => "\n\nCaused by:\n".toList ++ indented (List.replicate 4 ' ') (List.replicate 4 ' ') cause
  | causes =>
    "\n\nCaused by:\n".toList ++
      Text.joinWith ['\n'] (causes.zipIdx.map fun (cause, place) => numbered place cause)

/-- What is printed at the end of a command that a problem ends. -/
def text (problem : Problem) : Text :=
  "Error: ".toList ++ problem.message ++ causesText problem.causes ++ ['\n']

end Problem

end BulkEdit.CommandLine
