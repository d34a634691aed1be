import BulkEdit.Text.Basic

/-!
# Texts as bytes

The bytes of a text are those of its UTF-8 form.
-/

namespace BulkEdit.Text

def utf8 (t : Text) : List UInt8 := t.flatMap String.utf8EncodeChar

/-- The text that the bytes are the UTF-8 form of, if they are one. -/
def ofUtf8? (bytes : List UInt8) : Option Text :=
  (String.fromUTF8? ⟨bytes.toArray⟩).map String.toList

end BulkEdit.Text
