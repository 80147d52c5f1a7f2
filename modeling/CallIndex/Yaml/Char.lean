/-!
# Characters of YAML

* `Yaml.isAllowed`: the characters that a YAML text may hold.
* `Yaml.isPrintable`: those that are written as they are.
* `Yaml.isBreak`, `Yaml.isBlank`: line breaks and blanks.
* `Yaml.Place`: a place in a text, by byte, line and column, from 0.
-/

namespace CallIndex.Yaml

/-- A character that a text may hold: no controls but tab, line feed, carriage return and next
line. -/
def isAllowed (c : Char) : Bool :=
  let n := c.toNat
  n == 0x09 || n == 0x0A || n == 0x0D || (0x20 ≤ n && n ≤ 0x7E) || n == 0x85 ||
    (0xA0 ≤ n && n ≤ 0xFFFD) || 0x10000 ≤ n

/-- The mark that may stand at the front of a line. -/
def isByteMark (c : Char) : Bool := c.toNat == 0xFEFF

/-- A character that is written as it is, if need be between quotes. -/
def isPrintable (c : Char) : Bool :=
  let n := c.toNat
  n == 0x0A || (0x20 ≤ n && n ≤ 0x7E) || (0xA0 ≤ n && n ≤ 0xFFFD && n != 0xFEFF) || 0x10000 ≤ n

/-- A line break: carriage return, line feed, next line, line separator, paragraph separator. -/
def isBreak (c : Char) : Bool :=
  let n := c.toNat
  n == 0x0D || n == 0x0A || n == 0x85 || n == 0x2028 || n == 0x2029

/-- A space or a tab. -/
def isBlank (c : Char) : Bool := c == ' ' || c == '\t'

/-- A letter, a digit, an underscore or a hyphen: what names of anchors and handles are made of. -/
def isNameChar (c : Char) : Bool := c.isAlphanum || c == '_' || c == '-'

/-- The bytes of ASCII characters. -/
def asciiBytes (text : List Char) : List UInt8 := text.map fun c => UInt8.ofNat c.toNat

/-- The text ends here, or a line break or a blank comes next. -/
def atGap : List Char → Bool
  | [] => true
  | c :: _ => isBlank c || isBreak c

/-- The text ends here, or a line break comes next. -/
def atLineEnd : List Char → Bool
  | [] => true
  | c :: _ => isBreak c

/-- Three hyphens or three dots that stand alone at the front of a line. -/
def atDocumentMark : List Char → Bool
  | '-' :: '-' :: '-' :: rest => atGap rest
  | '.' :: '.' :: '.' :: rest => atGap rest
  | _ => false

/-- A place in a text. Bytes are counted as in UTF-8, columns by character. -/
structure Place where
  index : Nat
  line : Nat
  column : Nat
  deriving DecidableEq, Repr

namespace Place

def start : Place := ⟨0, 0, 0⟩

/-- The place some characters of one byte further on the same line. -/
def right (p : Place) (count : Nat) : Place := ⟨p.index + count, p.line, p.column + count⟩

/-- The place after a character of the same line. -/
def next (p : Place) (c : Char) : Place := ⟨p.index + c.utf8Size, p.line, p.column + 1⟩

/-- The place after some characters of the same line. -/
def past (p : Place) (text : List Char) : Place := text.foldl next p

/-- The front of the next line, after a break of some bytes. -/
def down (p : Place) (bytes : Nat) : Place := ⟨p.index + bytes, p.line + 1, 0⟩

end Place

/-- What a line break stands for: itself if it is one of the two separators, else a line feed. -/
def breakText (c : Char) : List Char :=
  if c.toNat = 0x2028 ∨ c.toNat = 0x2029 then [c] else ['\n']

/-- A line break at the front of a text: what it stands for, how many bytes it has, and the text
after it. A carriage return and a line feed are one break. -/
def takeBreak? : List Char → Option (List Char × Nat × List Char)
  | '\r' :: '\n' :: rest => some (['\n'], 2, rest)
  | c :: rest => if isBreak c then some (breakText c, c.utf8Size, rest) else none
  | [] => none

end CallIndex.Yaml
