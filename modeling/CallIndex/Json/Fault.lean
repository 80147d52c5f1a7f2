import CallIndex.Decimal.Shortest
import CallIndex.Json.Value
import CallIndex.Text.Quoted

/-!
# Faults of JSON texts

* `Json.Cause`: why a text is not a JSON text, or not one of the wanted shape.
* `Json.Cause.message` and `Json.Cause.category`: its text, and whether the text ended early, breaks
  the syntax or has another shape.
* `Json.Fault`: a cause with the place where it was noticed.
* `Json.Fault.describe`: the message with line and column. Columns count bytes from 1, and a line
  feed sets them back to 0.
-/

namespace CallIndex.Json

/-- What stands where another shape is wanted. -/
inductive Found where
  | null
  | bool (b : Bool)
  | number (n : Number)
  | string (s : String)
  | array
  | object
  deriving DecidableEq, Repr

/-- The text of a real number, with its sign. -/
def realText (negative : Bool) (magnitude : Decimal.Binary64) : String :=
  (if negative then "-" else "") ++ magnitude.text

def Found.text : Found → String
  | null => "null"
  | bool b => "boolean `" ++ (if b then "true" else "false") ++ "`"
  | number (.whole n) => "integer `" ++ toString n ++ "`"
  | number (.real negative magnitude) => "floating point `" ++ realText negative magnitude ++ "`"
  | string s => "string " ++ quoted s
  | array => "sequence"
  | object => "map"

/-- Why a text is refused. -/
inductive Cause where
  /-- The text ends inside a value, a string, a list or an object. -/
  | endInValue
  | endInString
  | endInArray
  | endInObject
  /-- The syntax is broken. -/
  | colonExpected
  | arrayEndExpected
  | objectEndExpected
  | wordExpected
  | valueExpected
  | badEscape
  | badNumber
  | numberTooLarge
  | keyExpected
  | loneSurrogate
  | cutSurrogate
  | controlCharacter
  | trailingComma
  | trailingText
  | nestedTooDeep
  /-- The value is not of the wanted shape. -/
  | mismatch (found : Found) (wanted : String)
  | outOfRange (n : Int) (wanted : String)
  | badLength (length : Nat) (wanted : String)
  | missing (field : String)
  | repeated (field : String)
  | unknownWord (word known : String)
  /-- The text fits none of the shapes that are allowed. -/
  | noShape (shapes : String)
  deriving DecidableEq, Repr

/-- The three classes of causes. -/
inductive Category where
  | early
  | broken
  | misfit
  deriving DecidableEq, Repr

namespace Cause

def category : Cause → Category
  | endInValue | endInString | endInArray | endInObject => .early
  | mismatch .. | outOfRange .. | badLength .. | missing _ | repeated _ | unknownWord ..
  | noShape _ => .misfit
  | _ => .broken

/-- The text of a cause. -/
def message : Cause → String
  | endInValue => "EOF while parsing a value"
  | endInString => "EOF while parsing a string"
  | endInArray => "EOF while parsing a list"
  | endInObject => "EOF while parsing an object"
  | colonExpected => "expected `:`"
  | arrayEndExpected => "expected `,` or `]`"
  | objectEndExpected => "expected `,` or `\x7d`"
  | wordExpected => "expected ident"
  | valueExpected => "expected value"
  | badEscape => "invalid escape"
  | badNumber => "invalid number"
  | numberTooLarge => "number out of range"
  | keyExpected => "key must be a string"
  | loneSurrogate => "lone leading surrogate in hex escape"
  | cutSurrogate => "unexpected end of hex escape"
  | controlCharacter => "control character (\\u0000-\\u001F) found while parsing a string"
  | trailingComma => "trailing comma"
  | trailingText => "trailing characters"
  | nestedTooDeep => "recursion limit exceeded"
  | mismatch found wanted => "invalid type: " ++ found.text ++ ", expected " ++ wanted
  | outOfRange n wanted => "invalid value: integer `" ++ toString n ++ "`, expected " ++ wanted
  | badLength length wanted => "invalid length " ++ toString length ++ ", expected " ++ wanted
  | missing field => "missing field `" ++ field ++ "`"
  | repeated field => "duplicate field `" ++ field ++ "`"
  | unknownWord word known => "unknown variant `" ++ word ++ "`, expected `" ++ known ++ "`"
  | noShape shapes => "data did not match any variant of untagged enum " ++ shapes

end Cause

/-- A cause with its place: the text that was unread, and how many bytes of it count as read. -/
structure Fault where
  cause : Cause
  unread : List Char
  ahead : Nat
  deriving DecidableEq, Repr

/-- A place in a text. -/
structure Position where
  line : Nat
  column : Nat
  deriving DecidableEq, Repr

namespace Position

def start : Position := ⟨1, 0⟩

/-- The place after the first `bytes` bytes of a text; a character may be passed in part. -/
def advance (p : Position) : Nat → List Char → Position
  | 0, _ => p
  | _, [] => p
  | bytes + 1, c :: rest =>
    if c = '\n' then advance ⟨p.line + 1, 0⟩ bytes rest
    else if c.utf8Size ≤ bytes + 1 then
      advance ⟨p.line, p.column + c.utf8Size⟩ (bytes + 1 - c.utf8Size) rest
    else ⟨p.line, p.column + (bytes + 1)⟩
  termination_by _ rest => rest.length

end Position

/-- The number of bytes that a text takes in UTF-8. -/
def byteLength (text : List Char) : Nat :=
  text.foldr (fun c bytes => c.utf8Size + bytes) 0

/-- The place of a fault in the whole text. -/
def Fault.position (f : Fault) (text : List Char) : Position :=
  Position.start.advance (byteLength text - byteLength f.unread + f.ahead) text

/-- The message of a fault with its place. A misfit that was noticed on the value as a whole has
none. -/
def Fault.describe (f : Fault) (text : List Char) : String :=
  match f.cause with
  | .noShape _ => f.cause.message
  | _ =>
    let p := f.position text
    f.cause.message ++ " at line " ++ toString p.line ++ " column " ++ toString p.column

end CallIndex.Json
