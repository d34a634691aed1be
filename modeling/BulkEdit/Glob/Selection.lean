import BulkEdit.Failure
import BulkEdit.Glob.Building
import BulkEdit.Glob.Reading

/-!
# Selections

A list of patterns selects the paths that some including pattern accepts and no excluding one does.
How a glob is read and matched, and how a set of them is built, is taken from elsewhere.
-/

namespace BulkEdit

/-- A pattern without its exclamation mark, which excludes, and without leading dots. -/
structure Pattern where
  excludes : Bool
  glob : Text
  deriving DecidableEq, Repr

namespace Pattern

def dropLeadingDots : Text → Text
  | '.' :: '/' :: rest => dropLeadingDots rest
  | text => text

def ofText : Text → Pattern
  | '!' :: rest => ⟨true, dropLeadingDots rest⟩
  | text => ⟨false, dropLeadingDots text⟩

end Pattern

/-- What reads globs, matches them, and builds sets of them, which may fail with a message. A set that is
built accepts what one of its globs accepts. -/
structure Globbing (γ : Type) where
  read : Text → Except Glob.Fault γ
  accepts : γ → Text → Bool
  build : List γ → Except Text (Text → Bool)
  build_accepts : ∀ {globs : List γ} {accepted : Text → Bool}, build globs = .ok accepted →
    ∀ path, accepted path = globs.any (accepts · path)

namespace Globbing

theorem build_standard {globs : List Glob} {accepted : Text → Bool}
    (h : Glob.build globs = .ok accepted) (path : Text) :
    accepted path = globs.any (·.accepts path) := by
  rw [Glob.build] at h
  split at h
  · cases h
  · split at h
    · cases h
    · cases h
      rfl

def standard : Globbing Glob := ⟨Glob.read, Glob.accepts, Glob.build, build_standard⟩

end Globbing

/-- The sets of the including and of the excluding globs, by what they accept. -/
structure Selection where
  included : Text → Bool
  excluded : Text → Bool

namespace Selection

variable {γ : Type}

/-- The including and the excluding globs. The patterns are read in order up to the first fault, and one
without a glob is passed over. -/
def ofGlobs (globbing : Globbing γ) : List Pattern → Except NoFilesReason (List γ × List γ)
  | [] => .ok ([], [])
  | pattern :: others =>
    if pattern.glob = [] then ofGlobs globbing others
    else
      match globbing.read pattern.glob with
      | .error fault => .error (.badGlob pattern.glob fault)
      | .ok glob =>
        match ofGlobs globbing others with
        | .error reason => .error reason
        | .ok (includes, excludes) =>
          .ok (if pattern.excludes then (includes, glob :: excludes) else (glob :: includes, excludes))

/-- Builds the sets of the including and of the excluding globs, in this order. -/
def buildSets (globbing : Globbing γ) (includes excludes : List γ) : Except NoFilesReason Selection :=
  match globbing.build includes with
  | .error message => .error (.badSet message)
  | .ok included =>
    match globbing.build excludes with
    | .error message => .error (.badSet message)
    | .ok excluded => .ok ⟨included, excluded⟩

/-- The selection that patterns describe, with globs as they are read and matched by `globbing`. One of the
patterns has to include something. -/
def ofPatternsBy (globbing : Globbing γ) (patterns : List Text) : Except NoFilesReason Selection :=
  match ofGlobs globbing (patterns.map Pattern.ofText) with
  | .error reason => .error reason
  | .ok (includes, excludes) =>
    if includes.isEmpty then .error .noInclude else buildSets globbing includes excludes

def ofPatterns (patterns : List Text) : Except NoFilesReason Selection :=
  ofPatternsBy .standard patterns

def selects (selection : Selection) (path : Text) : Bool :=
  selection.included path && !selection.excluded path

end Selection

end BulkEdit
