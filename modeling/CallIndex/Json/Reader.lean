import CallIndex.Json.Number

/-!
# Reading JSON

* `Json.nextItem`, `Json.nextKey`: find the next item of a list, or the next name of an object.
* `Json.readItems`, `Json.readMembers`: all items or members, each read by a given reader.
* `Json.readValue`: any value, nested at most as deep as a limit allows.
* `Json.skipValue`: pass over any value, however deep.
-/

namespace CallIndex.Json

/-- Find the next item of a list, after the opening bracket or after an item: the text that starts
with it, or none before the closing bracket. -/
def nextItem (first : Bool) (text : List Char) : Except Fault (Option (List Char)) :=
  match skipSpace text with
  | [] => faultHere .endInArray []
  | c :: rest =>
    if c = ']' then .ok none
    else if first then .ok (some (c :: rest))
    else if c = ',' then
      match skipSpace rest with
      | [] => faultHere .endInValue []
      | d :: rest =>
        if d = ']' then faultNext .trailingComma (d :: rest) else .ok (some (d :: rest))
    else faultNext .arrayEndExpected (c :: rest)

/-- Read the closing bracket of a list. -/
def endArray (text : List Char) : Except Fault (List Char) :=
  match skipSpace text with
  | [] => faultHere .endInArray []
  | c :: rest =>
    if c = ']' then .ok rest
    else if c = ',' then
      match skipSpace rest with
      | [] => faultHere .trailingText []
      | d :: rest =>
        if d = ']' then faultNext .trailingComma (d :: rest)
        else faultNext .trailingText (d :: rest)
    else faultNext .trailingText (c :: rest)

/-- Find the next name of an object, after the opening brace or after a member, and read it. There
is none before the closing brace. -/
def nextKey (first : Bool) (text : List Char) : Except Fault (Option (String × List Char)) :=
  match skipSpace text with
  | [] => faultHere .endInObject []
  | c :: rest =>
    if c = '}' then .ok none
    else if first then
      if c = '"' then (readString rest).map some else faultNext .keyExpected (c :: rest)
    else if c = ',' then
      match skipSpace rest with
      | [] => faultHere .endInValue []
      | d :: rest =>
        if d = '"' then (readString rest).map some
        else if d = '}' then faultNext .trailingComma (d :: rest)
        else faultNext .keyExpected (d :: rest)
    else faultNext .objectEndExpected (c :: rest)

/-- Read the colon after a name. -/
def readColon (text : List Char) : Except Fault (List Char) :=
  match skipSpace text with
  | [] => faultHere .endInObject []
  | c :: rest => if c = ':' then .ok rest else faultNext .colonExpected (c :: rest)

/-- Read the closing brace of an object. -/
def endObject (text : List Char) : Except Fault (List Char) :=
  match skipSpace text with
  | [] => faultHere .endInObject []
  | c :: rest =>
    if c = '}' then .ok rest
    else if c = ',' then faultNext .trailingComma (c :: rest)
    else faultNext .trailingText (c :: rest)

/-- The items of a list up to its closing bracket. Each takes a character at least, so the length of
the text bounds their number. -/
def readItems {α : Type} (item : Reader α) : Nat → Bool → Reader (List α)
  | 0, _, _ => faultHere .endInArray []
  | fuel + 1, first, text => do
    match ← nextItem first text with
    | none => .ok ([], text)
    | some text =>
      let (value, text) ← item text
      let (values, text) ← readItems item fuel false text
      .ok (value :: values, text)

/-- A list after its opening bracket. -/
def readArray {α : Type} (item : Reader α) : Reader (List α) := fun text => do
  let (values, text) ← readItems item (text.length + 1) true text
  let text ← endArray text
  .ok (values, text)

/-- The members of an object up to its closing brace. -/
def readMembers {α : Type} (value : Reader α) : Nat → Bool → Reader (List (String × α))
  | 0, _, _ => faultHere .endInObject []
  | fuel + 1, first, text => do
    match ← nextKey first text with
    | none => .ok ([], text)
    | some (key, text) =>
      let text ← readColon text
      let (v, text) ← value text
      let (members, text) ← readMembers value fuel false text
      .ok ((key, v) :: members, text)

/-- An object after its opening brace. -/
def readObject {α : Type} (value : Reader α) : Reader (List (String × α)) := fun text => do
  let (members, text) ← readMembers value (text.length + 1) true text
  let text ← endObject text
  .ok (members, text)

/-- Start a value with what its first character announces. -/
def readScalar (text : List Char) : Except Fault (Value × List Char) :=
  match text with
  | [] => faultHere .endInValue []
  | c :: rest =>
    if c = 'n' then (readWord ['u', 'l', 'l'] rest).map fun rest => (.null, rest)
    else if c = 't' then (readWord ['r', 'u', 'e'] rest).map fun rest => (.bool true, rest)
    else if c = 'f' then (readWord ['a', 'l', 's', 'e'] rest).map fun rest => (.bool false, rest)
    else if c = '-' then (readNumber true rest).map fun (n, rest) => (.number n, rest)
    else if isDigit c then (readNumber false text).map fun (n, rest) => (.number n, rest)
    else if c = '"' then (readString rest).map fun (s, rest) => (.string s, rest)
    else faultNext .valueExpected text

/-- A value with at most `depth` lists and objects around its inner parts. -/
def readValue : Nat → Reader Value
  | depth, text =>
    match skipSpace text with
    | [] => faultHere .endInValue []
    | c :: rest =>
      if c = '[' then
        match depth with
        | 0 => faultNext .nestedTooDeep (c :: rest)
        | depth + 1 =>
          (readArray (readValue depth) rest).map fun (items, rest) => (.array items, rest)
      else if c = '{' then
        match depth with
        | 0 => faultNext .nestedTooDeep (c :: rest)
        | depth + 1 =>
          (readObject (readValue depth) rest).map fun (members, rest) => (.object members, rest)
      else readScalar (c :: rest)

/-- How deep a value may be nested. -/
def maxDepth : Nat := 127

/-- Only blanks may follow a value. -/
def endDocument (text : List Char) : Except Fault Unit :=
  match skipSpace text with
  | [] => .ok ()
  | rest => faultNext .trailingText rest

/-- What encloses a value that is passed over. -/
inductive Bracket where
  | array
  | object
  deriving DecidableEq, Repr

/-- Pass over a name and its colon. -/
def skipKey (text : List Char) : Except Fault (List Char) :=
  match skipSpace text with
  | [] => faultHere .endInObject []
  | c :: rest =>
    if c = '"' then skipString rest >>= readColon else faultNext .keyExpected (c :: rest)

/-- Pass over a value that is neither a list nor an object. -/
def skipScalar (text : List Char) : Except Fault (List Char) :=
  match text with
  | [] => faultHere .endInValue []
  | c :: rest =>
    if c = 'n' then readWord ['u', 'l', 'l'] rest
    else if c = 't' then readWord ['r', 'u', 'e'] rest
    else if c = 'f' then readWord ['a', 'l', 's', 'e'] rest
    else if c = '-' then skipNumber rest
    else if isDigit c then skipNumber text
    else if c = '"' then skipString rest
    else faultNext .valueExpected text

/-- What passing over a value waits for. -/
inductive SkipState where
  /-- A value. -/
  | value
  /-- A comma or a closing bracket, after a value. -/
  | more
  /-- The first part of a list or object, or its closing bracket. -/
  | opened
  deriving DecidableEq, Repr

/-- Pass over a value inside the given brackets, innermost first, and over what follows it up to the
last closing bracket. Each step takes a character or turns from an opened bracket to its first
value. -/
def skipFrom : Nat → SkipState → List Bracket → List Char → Except Fault (List Char)
  | 0, _, _, _ => faultHere .endInValue []
  | _ + 1, .more, [], text => .ok text
  | _ + 1, .opened, [], text => .ok text
  | fuel + 1, .value, stack, text =>
    match skipSpace text with
    | [] => faultHere .endInValue []
    | c :: rest =>
      if c = '[' then skipFrom fuel .opened (.array :: stack) rest
      else if c = '{' then skipFrom fuel .opened (.object :: stack) rest
      else do
        let rest ← skipScalar (c :: rest)
        skipFrom fuel .more stack rest
  | fuel + 1, state, .array :: stack, text =>
    match skipSpace text with
    | [] => faultHere .endInArray []
    | c :: rest =>
      if c = ']' then skipFrom fuel .more stack rest
      else if state = .opened then skipFrom fuel .value (.array :: stack) (c :: rest)
      else if c = ',' then skipFrom fuel .value (.array :: stack) rest
      else faultNext .arrayEndExpected (c :: rest)
  | fuel + 1, state, .object :: stack, text =>
    match skipSpace text with
    | [] => faultHere .endInObject []
    | c :: rest =>
      if c = '}' then skipFrom fuel .more stack rest
      else if state = .opened then do
        let rest ← skipKey (c :: rest)
        skipFrom fuel .value (.object :: stack) rest
      else if c = ',' then do
        let rest ← skipKey rest
        skipFrom fuel .value (.object :: stack) rest
      else faultNext .objectEndExpected (c :: rest)

/-- Pass over any value. -/
def skipValue (text : List Char) : Except Fault (List Char) :=
  skipFrom (2 * text.length + 2) .value [] text

end CallIndex.Json
