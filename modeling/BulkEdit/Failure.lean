import BulkEdit.Glob.Basic
import BulkEdit.Path.Basic
import BulkEdit.Text.Quoted

/-!
# Failures

What can go wrong, by cause, and the one wording of each.
-/

namespace BulkEdit

/-- What a store of files reports when it cannot read, write or resolve. -/
inductive StoreFault where
  | noSuchEntry
  | notADirectory
  | isADirectory
  | nameTooLong
  | tooManyLinks
  | notText
  | nulInName
  | noParent
  | absent
  | injectedRead
  | injectedWrite
  | scriptedRead
  deriving DecidableEq, Repr

def StoreFault.message : StoreFault → Text
  | .noSuchEntry => "No such file or directory (os error 2)".toList
  | .notADirectory => "Not a directory (os error 20)".toList
  | .isADirectory => "Is a directory (os error 21)".toList
  | .nameTooLong => "File name too long (os error 36)".toList
  | .tooManyLinks => "Too many levels of symbolic links (os error 40)".toList
  | .notText => "stream did not contain valid UTF-8".toList
  | .nulInName => "file name contained an unexpected NUL byte".toList
  | .noParent => "path has no parent directory".toList
  | .absent => "entity not found".toList
  | .injectedRead => "injected read failure".toList
  | .injectedWrite => "injected write failure".toList
  | .scriptedRead => "scripted read failure".toList

/-- Why a list of patterns names no files. -/
inductive NoFilesReason where
  | noInclude
  | matchedNothing
  | badGlob (glob : Text) (fault : Glob.Fault)
  | badSet (message : Text)
  | unreadable (path : Path) (fault : StoreFault)
  deriving DecidableEq, Repr

def NoFilesReason.message : NoFilesReason → Text
  | .noInclude => "no include patterns given".toList
  | .matchedNothing => "patterns matched nothing".toList
  | .badGlob glob fault =>
    "error parsing glob '".toList ++ glob ++ "': ".toList ++ fault.message
  | .badSet message => message
  | .unreadable path fault =>
    "IO error for operation on ".toList ++ path.spelling ++ ": ".toList ++ fault.message

/-- Why a request for an edit is refused. The last cause is a caller's own. -/
inductive RequestFault where
  | wholeLineInFile
  | unplacedLine (line : Option Text) (number : Option Nat)
  | given (reason : Text)
  deriving DecidableEq, Repr

/-- An optional item as a message shows it. -/
def shownOption : Option Text → Text
  | none => "None".toList
  | some item => "Some(".toList ++ item ++ ")".toList

def decimal (n : Nat) : Text := (toString n).toList

def RequestFault.message : RequestFault → Text
  | .wholeLineInFile => "whole-line replacement requires a line scope".toList
  | .unplacedLine line number =>
    "line edit needs a line and a 1-based line number (line: ".toList ++
      shownOption (line.map Text.quoted) ++ ", line number: ".toList ++
      shownOption (number.map decimal) ++ ")".toList
  | .given reason => reason

/-- Why a path is not let through by the guard of a root. -/
inductive Rejection where
  | outsideRoot (path root : Path)
  | forbidden (path folder : Path)
  | unresolved (path : Path) (fault : StoreFault)
  deriving DecidableEq, Repr

def Rejection.message : Rejection → Text
  | .outsideRoot path root =>
    "Path is outside root: ".toList ++ path.spelling ++ " (root: ".toList ++ root.spelling ++
      ")".toList
  | .forbidden path folder =>
    "Path is in forbidden directory: ".toList ++ path.spelling ++ " (forbidden: ".toList ++
      folder.spelling ++ ")".toList
  | .unresolved path fault =>
    "Failed to canonicalize ".toList ++ path.spelling ++ ": ".toList ++ fault.message

/-- Why an operation on a batch of files fails. -/
inductive Failure where
  | noFilesFound (patterns : List Text) (reason : NoFilesReason)
  | invalidRequest (file : Path) (fault : RequestFault)
  | mixedGranularity (file : Path)
  | unreadable (file : Path) (fault : StoreFault)
  | unwritable (file : Path) (fault : StoreFault)
  | rejected (rejection : Rejection)
  deriving DecidableEq, Repr

namespace Failure

def message : Failure → Text
  | .noFilesFound patterns reason =>
    "No files found for patterns ".toList ++ Text.bracketed (patterns.map Text.quoted) ++
      ": ".toList ++ reason.message
  | .invalidRequest file fault =>
    "Invalid edit request for ".toList ++ file.spelling ++ ": ".toList ++ fault.message
  | .mixedGranularity file =>
    "Cannot have both line and file replacements for ".toList ++ file.spelling ++
      " in one commit; use the whole-file pass for every edit to this file".toList
  | .unreadable file fault =>
    "Could not read file ".toList ++ file.spelling ++ ": ".toList ++ fault.message
  | .unwritable file fault =>
    "Could not write file ".toList ++ file.spelling ++ ": ".toList ++ fault.message
  | .rejected rejection => "Path rejected: ".toList ++ rejection.message

/-- The file that the failure is about, if it is about one. -/
def file? : Failure → Option Path
  | .invalidRequest file _ => some file
  | .mixedGranularity file => some file
  | .unreadable file _ => some file
  | .unwritable file _ => some file
  | .noFilesFound _ _ => none
  | .rejected _ => none

/-- The faults underneath, each the cause of the one before it. -/
def causes : Failure → List Text
  | .unreadable _ fault => [fault.message]
  | .unwritable _ fault => [fault.message]
  | .rejected (.unresolved path fault) =>
    [(Rejection.unresolved path fault).message, fault.message]
  | .rejected rejection => [rejection.message]
  | _ => []

end Failure

end BulkEdit
