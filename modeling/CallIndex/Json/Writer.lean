import CallIndex.Json.Fault

/-!
# Writing JSON

* `Json.escapeChar`: how a character stands in a string. Only quotes, backslashes and controls are
  escaped.
* `Json.Value.compact`: a value on one line, without blanks.
* `Json.Value.pretty`: a value over several lines, each level indented by two blanks.
-/

namespace CallIndex.Json

/-- The lower case hexadecimal digit of a number below 16. -/
def hexChar (n : Nat) : Char :=
  if n < 10 then Char.ofNat ('0'.toNat + n) else Char.ofNat ('a'.toNat + (n - 10))

/-- A character of a string. -/
def escapeChar (c : Char) : List Char :=
  if c = '"' then ['\\', '"']
  else if c = '\\' then ['\\', '\\']
  else if c = '\x08' then ['\\', 'b']
  else if c = '\x0c' then ['\\', 'f']
  else if c = '\n' then ['\\', 'n']
  else if c = '\r' then ['\\', 'r']
  else if c = '\t' then ['\\', 't']
  else if c < ' ' then ['\\', 'u', '0', '0', hexChar (c.toNat / 16), hexChar (c.toNat % 16)]
  else [c]

/-- A string with its quotes. -/
def stringChars (s : String) : List Char :=
  '"' :: (s.toList.flatMap escapeChar ++ ['"'])

/-- A number. A real one is written so that it reads back. -/
def numberChars : Number → List Char
  | .whole n => (toString n).toList
  | .real negative magnitude => (realText negative magnitude).toList

namespace Value

mutual

/-- A value without blanks. -/
def compactChars : Value → List Char
  | null => ['n', 'u', 'l', 'l']
  | bool true => ['t', 'r', 'u', 'e']
  | bool false => ['f', 'a', 'l', 's', 'e']
  | number n => numberChars n
  | string s => stringChars s
  | array items => '[' :: (compactItems true items ++ [']'])
  | object members => '{' :: (compactMembers true members ++ ['}'])

/-- Items with a comma before each but the first. -/
def compactItems (first : Bool) : List Value → List Char
  | [] => []
  | v :: rest => (if first then [] else [',']) ++ v.compactChars ++ compactItems false rest

/-- Members with a comma before each but the first. -/
def compactMembers (first : Bool) : List (String × Value) → List Char
  | [] => []
  | (key, v) :: rest =>
    (if first then [] else [',']) ++ stringChars key ++ ':' :: v.compactChars ++
      compactMembers false rest

end

/-- A line feed and the blanks of a level. -/
def newLine (level : Nat) : List Char := '\n' :: List.replicate (2 * level) ' '

mutual

/-- A value over several lines; its own lines are at a level. An empty list or object stays on one
line. -/
def prettyChars (level : Nat) : Value → List Char
  | array [] => ['[', ']']
  | array (v :: rest) =>
    '[' :: (newLine (level + 1) ++ v.prettyChars (level + 1) ++ prettyItems (level + 1) rest ++
      newLine level ++ [']'])
  | object [] => ['{', '}']
  | object ((key, v) :: rest) =>
    '{' :: (newLine (level + 1) ++ stringChars key ++ [':', ' '] ++ v.prettyChars (level + 1) ++
      prettyMembers (level + 1) rest ++ newLine level ++ ['}'])
  | v => v.compactChars

/-- The items after the first, each on a line of its own. -/
def prettyItems (level : Nat) : List Value → List Char
  | [] => []
  | v :: rest => ',' :: (newLine level ++ v.prettyChars level ++ prettyItems level rest)

/-- The members after the first, each on a line of its own. -/
def prettyMembers (level : Nat) : List (String × Value) → List Char
  | [] => []
  | (key, v) :: rest =>
    ',' :: (newLine level ++ stringChars key ++ [':', ' '] ++ v.prettyChars level ++
      prettyMembers level rest)

end

/-- A value on one line. -/
def compact (v : Value) : String := String.ofList v.compactChars

/-- A value over several lines. -/
def pretty (v : Value) : String := String.ofList (v.prettyChars 0)

end Value

end CallIndex.Json
