import CallIndex.Json.Fault
import CallIndex.Text.Hex

/-!
# Blanks, words and strings of JSON

A reader takes the unread text and gives what it read with the text that is left.

* `Json.skipSpace`: drop the four blanks that may stand between tokens.
* `Json.readWord`: the letters of `null`, `true` and `false`.
* `Json.readString`: a string after its opening quote, with its escapes undone.
* `Json.skipString`: pass over a string; its escapes need not name characters.
-/

namespace CallIndex.Json

/-- A step that reads a value from the front of a text. -/
abbrev Reader (α : Type) := List Char → Except Fault (α × List Char)

/-- A fault noticed at the character that comes next. -/
def faultNext {α : Type} (cause : Cause) (unread : List Char) : Except Fault α :=
  .error ⟨cause, unread, if unread.isEmpty then 0 else 1⟩

/-- A fault noticed after what was read. -/
def faultHere {α : Type} (cause : Cause) (unread : List Char) : Except Fault α :=
  .error ⟨cause, unread, 0⟩

/-- The blanks between tokens: space, line feed, tab and carriage return. -/
def isSpace (c : Char) : Bool := c == ' ' || c == '\n' || c == '\t' || c == '\r'

def skipSpace (text : List Char) : List Char := text.dropWhile isSpace

/-- Read the given letters. -/
def readWord : List Char → List Char → Except Fault (List Char)
  | [], text => .ok text
  | _ :: _, [] => faultHere .endInValue []
  | w :: word, c :: rest =>
    if c = w then readWord word rest else faultNext .wordExpected (c :: rest)

/-- The value of four hexadecimal digits. -/
def hexUnit? (a b c d : Char) : Option Nat := do
  let a ← hexDigit? a
  let b ← hexDigit? b
  let c ← hexDigit? c
  let d ← hexDigit? d
  some (((a * 16 + b) * 16 + c) * 16 + d)

/-- The fault of an escape whose four bytes are not hexadecimal digits. -/
def hexFault {α : Type} (unread : List Char) : Except Fault α :=
  if byteLength unread < 4 then faultHere .endInString [] else .error ⟨.badEscape, unread, 4⟩

/-- The first and the second half of a pair that stands for one character. -/
def isHighHalf (n : Nat) : Bool := 0xD800 ≤ n && n ≤ 0xDBFF
def isLowHalf (n : Nat) : Bool := 0xDC00 ≤ n && n ≤ 0xDFFF

/-- The character of a pair of halves. -/
def joinHalves (high low : Nat) : Char :=
  Char.ofNat ((high - 0xD800) * 0x400 + (low - 0xDC00) + 0x10000)

/-- The character of an escape with one letter. -/
def letterEscape? (c : Char) : Option Char :=
  match c with
  | '"' => some '"'
  | '\\' => some '\\'
  | '/' => some '/'
  | 'b' => some '\x08'
  | 'f' => some '\x0c'
  | 'n' => some '\n'
  | 'r' => some '\r'
  | 't' => some '\t'
  | _ => none

/-- Put a character in front of what a reader gives. -/
def consRead (c : Char) : Except Fault (List Char × List Char) →
    Except Fault (List Char × List Char)
  | .ok (chars, rest) => .ok (c :: chars, rest)
  | .error f => .error f

/-- The characters of a string, up to its closing quote, and the text after it. -/
def readChars : List Char → Except Fault (List Char × List Char)
  | [] => faultHere .endInString []
  | '"' :: rest => .ok ([], rest)
  | '\\' :: 'u' :: a :: b :: c :: d :: rest =>
    match hexUnit? a b c d with
    | none => hexFault (a :: b :: c :: d :: rest)
    | some high =>
      if isLowHalf high then faultHere .loneSurrogate rest
      else if isHighHalf high then
        match rest with
        | '\\' :: 'u' :: a :: b :: c :: d :: rest =>
          match hexUnit? a b c d with
          | none => hexFault (a :: b :: c :: d :: rest)
          | some low =>
            if isLowHalf low then consRead (joinHalves high low) (readChars rest)
            else faultHere .loneSurrogate rest
        | '\\' :: 'u' :: rest => hexFault rest
        | '\\' :: [] => faultHere .endInString []
        | '\\' :: rest => faultNext .cutSurrogate rest
        | [] => faultHere .endInString []
        | rest => faultNext .cutSurrogate rest
      else consRead (Char.ofNat high) (readChars rest)
  | '\\' :: 'u' :: rest => hexFault rest
  | '\\' :: [] => faultHere .endInString []
  | '\\' :: c :: rest =>
    match letterEscape? c with
    | some e => consRead e (readChars rest)
    | none => faultNext .badEscape (c :: rest)
  | c :: rest =>
    if c < ' ' then faultNext .controlCharacter (c :: rest) else consRead c (readChars rest)

/-- A string after its opening quote. -/
def readString : Reader String := fun text =>
  match readChars text with
  | .ok (chars, rest) => .ok (String.ofList chars, rest)
  | .error f => .error f

/-- Pass over a string after its opening quote. Halves of pairs may stand alone here. -/
def skipString : List Char → Except Fault (List Char)
  | [] => faultHere .endInString []
  | '"' :: rest => .ok rest
  | '\\' :: 'u' :: a :: b :: c :: d :: rest =>
    match hexUnit? a b c d with
    | none => hexFault (a :: b :: c :: d :: rest)
    | some _ => skipString rest
  | '\\' :: 'u' :: rest => hexFault rest
  | '\\' :: [] => faultHere .endInString []
  | '\\' :: c :: rest =>
    match letterEscape? c with
    | some _ => skipString rest
    | none => faultNext .badEscape (c :: rest)
  | c :: rest => if c < ' ' then faultNext .controlCharacter (c :: rest) else skipString rest

end CallIndex.Json
