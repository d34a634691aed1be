import BulkEdit.Edit.Staging

/-!
# Access to files

All that a batch of edits needs of the place where its files are: finding the files that patterns
select, reading a file and writing one. Nothing is promised of the order of the files found, nor
that they differ.
-/

namespace BulkEdit

structure Access (σ : Type) where
  find : List Text → Action σ (List Path)
  read : Path → Action σ Text
  write : Path → Text → Action σ Unit

end BulkEdit
