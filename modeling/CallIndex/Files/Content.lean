/-!
# Contents of files

* `FileFault`: why a file cannot be read or written.
* `Content`: what a file holds: a text, or bytes that are no text.
-/

namespace CallIndex

/-- Why a file cannot be read or written. -/
inductive FileFault where
  | missing
  | taken
  | notDirectory
  | isDirectory
  | notText
  | zeroInName
  | nameTooLong
  deriving DecidableEq, Repr

/-- The text of a fault. -/
def FileFault.message : FileFault → String
  | missing => "No such file or directory (os error 2)"
  | taken => "File exists (os error 17)"
  | notDirectory => "Not a directory (os error 20)"
  | isDirectory => "Is a directory (os error 21)"
  | notText => "stream did not contain valid UTF-8"
  | zeroInName => "file name contained an unexpected NUL byte"
  | nameTooLong => "File name too long (os error 36)"

/-- What a file holds. -/
inductive Content where
  | text (s : String)
  /-- Bytes that are not a text in UTF-8. -/
  | bytes
  deriving DecidableEq, Repr

namespace Content

/-- The content of a file, from its bytes. -/
def ofBytes (bytes : ByteArray) : Content :=
  match String.fromUTF8? bytes with
  | some s => .text s
  | none => .bytes

/-- A content as a text. -/
def asText : Content → Except FileFault String
  | .text s => .ok s
  | .bytes => .error .notText

end Content

end CallIndex
