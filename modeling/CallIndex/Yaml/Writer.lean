import CallIndex.Yaml.Word

/-!
# Writing scalars of YAML

A text is written in the plainest form in which it reads back.

* `Yaml.plainAllowed`, `Yaml.singleAllowed`, `Yaml.blockAllowed`: the forms a text can take.
* `Yaml.formOf`: the form it takes. A text with line feeds takes a block of lines, a text that looks
  like another kind of value takes quotes.
* `Yaml.scalarLine`: the scalar, with its line ended.
-/

namespace CallIndex.Yaml

/-- The forms of a scalar. -/
inductive Form where
  | plain
  | single
  | double
  | literal
  deriving DecidableEq, Repr

/-- Marks that cannot begin a plain scalar. -/
def isOpeningMark (c : Char) : Bool :=
  c == '#' || c == ',' || c == '[' || c == ']' || c == '{' || c == '}' || c == '&' || c == '*' ||
    c == '!' || c == '|' || c == '>' || c == '\'' || c == '"' || c == '%' || c == '@' ||
    c.toNat == 0x60

/-- Whether two characters that fit the two tests stand side by side. -/
def hasPair (p q : Char → Bool) : List Char → Bool
  | c :: d :: rest => (p c && q d) || hasPair p q (d :: rest)
  | _ => false

/-- Whether a colon ends a word. A colon at the front counts as well. -/
def hasKeyMark : List Char → Bool
  | [] => false
  | c :: rest => (c = ':' && atGap rest) || hasKeyMark rest

/-- Whether the front of a text would be taken for a mark. -/
def opensMark : List Char → Bool
  | [] => false
  | '-' :: '-' :: '-' :: _ => true
  | '.' :: '.' :: '.' :: _ => true
  | c :: rest => isOpeningMark c || ((c = '?' || c = '-') && atGap rest)

/-- A gap or a character that is none. -/
def isGapChar (c : Char) : Bool := isBlank c || isBreak c || c = '\x00'

def isSpace (c : Char) : Bool := c == ' '

/-- A text in which a space stands before a break, or a character that is not printable. It can only
stand between double quotes. -/
def needsEscape (text : List Char) : Bool :=
  !text.all isPrintable || hasPair isSpace isBreak text

/-- A text that can stand without quotes. -/
def plainAllowed (text : List Char) : Bool :=
  !needsEscape text && !text.any isBreak && !opensMark text && !hasKeyMark text &&
    !hasPair isGapChar (· == '#') text &&
    text.head? ≠ some ' ' && text.getLast? ≠ some ' '

/-- A text that can stand between single quotes. -/
def singleAllowed (text : List Char) : Bool :=
  !needsEscape text && !hasPair isBreak isSpace text

/-- A text that can stand as a block of lines. -/
def blockAllowed (text : List Char) : Bool :=
  !needsEscape text && text.getLast? ≠ some ' '

/-- The form of a text. -/
def formOf (text : String) : Form :=
  let chars := text.toList
  if chars.contains '\n' then if blockAllowed chars then .literal else .double
  else if isTextWord text && plainAllowed chars then .plain
  else if singleAllowed chars then .single
  else .double

/-- Spaces in front of a line. -/
def spaces (count : Nat) : List Char := List.replicate count ' '

/-- A text between single quotes, after the opening one. A quote is written twice, and a line after
a break is indented. -/
def singleChars (indent : Nat) (afterBreak : Bool) : List Char → List Char
  | [] => (if afterBreak then spaces indent else []) ++ ['\'']
  | c :: rest =>
    if isBreak c then
      (if c = '\n' && !afterBreak then ['\n', '\n'] else [c]) ++ singleChars indent true rest
    else
      (if afterBreak then spaces indent else []) ++ (if c = '\'' then ['\'', '\''] else [c]) ++
        singleChars indent false rest

/-- The upper case hexadecimal digit of a number below 16. -/
def upperHex (n : Nat) : Char :=
  if n < 10 then Char.ofNat ('0'.toNat + n) else Char.ofNat ('A'.toNat + (n - 10))

/-- The last digits of a number in hexadecimal. -/
def hexDigits : Nat → Nat → List Char
  | 0, _ => []
  | count + 1, n => hexDigits count (n / 16) ++ [upperHex (n % 16)]

/-- A character between double quotes. -/
def doubleChar (c : Char) : List Char :=
  let n := c.toNat
  if isPrintable c && !isBreak c && c ≠ '"' && c ≠ '\\' then [c]
  else if n = 0x00 then ['\\', '0']
  else if n = 0x07 then ['\\', 'a']
  else if n = 0x08 then ['\\', 'b']
  else if n = 0x09 then ['\\', 't']
  else if n = 0x0A then ['\\', 'n']
  else if n = 0x0B then ['\\', 'v']
  else if n = 0x0C then ['\\', 'f']
  else if n = 0x0D then ['\\', 'r']
  else if n = 0x1B then ['\\', 'e']
  else if n = 0x22 then ['\\', '"']
  else if n = 0x5C then ['\\', '\\']
  else if n = 0x85 then ['\\', 'N']
  else if n = 0x2028 then ['\\', 'L']
  else if n = 0x2029 then ['\\', 'P']
  else if n ≤ 0xFF then '\\' :: 'x' :: hexDigits 2 n
  else if n ≤ 0xFFFF then '\\' :: 'u' :: hexDigits 4 n
  else '\\' :: 'U' :: hexDigits 8 n

/-- The marks in the header of a block of lines: how deep it is, if its first line does not show it,
and what happens to the breaks at its end. -/
def blockMarks (step : Nat) (text : List Char) : List Char :=
  (if text.head?.any fun c => c = ' ' || isBreak c then (toString step).toList else []) ++
    match text.reverse with
    | [] => ['-']
    | c :: before =>
      if !isBreak c then ['-']
      else
        match before with
        | [] => ['+']
        | d :: _ => if isBreak d then ['+'] else []

/-- The lines of a block. Empty ones are not indented. -/
def blockChars (indent : Nat) (afterBreak : Bool) : List Char → List Char
  | [] => []
  | c :: rest =>
    if isBreak c then c :: blockChars indent true rest
    else (if afterBreak then spaces indent else []) ++ c :: blockChars indent false rest

/-- How much deeper each level is indented. -/
def indentStep : Nat := 2

/-- A scalar as the value of a key, up to the end of its last line. `indent` is the depth of lines
that belong to it. -/
def scalarLine (indent : Nat) (text : String) : List Char :=
  let chars := text.toList
  match formOf text with
  | .plain => chars ++ ['\n']
  | .single => '\'' :: singleChars indent false chars ++ ['\n']
  | .double => '"' :: chars.flatMap doubleChar ++ ['"', '\n']
  | .literal =>
    '|' :: blockMarks indentStep chars ++ '\n' :: blockChars indent true chars ++
      (if chars.getLast?.any isBreak then [] else ['\n'])

end CallIndex.Yaml
