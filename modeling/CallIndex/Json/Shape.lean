import CallIndex.Json.Reader

/-!
# Shapes of JSON values

A shape says what a typed value looks like in JSON. A record may be written as an object, with its
fields in any order, or as a list of its fields in their own order.

* `Json.Shape`: numbers, texts, lists and records with named fields.
* `Json.Shape.fit?`: bring a value into the one form that its shape has: records are objects with
  all fields in order.
* `Json.Shape.read`: read a text straight into that form. The first fault in the order of the text
  counts, whether of syntax or of shape.
-/

namespace CallIndex.Json

/-- A range of whole numbers, with the name that messages use. -/
inductive Width where
  | signed64
  | unsigned32
  deriving DecidableEq, Repr

namespace Width

def name : Width → String
  | signed64 => "i64"
  | unsigned32 => "u32"

/-- Whether a number lies in the range. -/
def holds : Width → Int → Bool
  | signed64, n => -Int.pow 2 63 ≤ n && n < Int.pow 2 63
  | unsigned32, n => 0 ≤ n && n < Int.pow 2 32

end Width

/-- How a field is called, and what stands for it when it is left out. -/
structure Label where
  /-- The name it is written with. -/
  name : String
  /-- A second name it is read by. -/
  alternate : Option String := none
  /-- Its value when an object lacks it; without one it is required. -/
  absent : Option Value := none
  /-- Its value when a list ends before it; without one the list is too short. -/
  cut : Option Value := none

/-- Whether a name in an object means this field. -/
def Label.accepts (l : Label) (key : String) : Bool :=
  key = l.name || l.alternate = some key

/-- A required field. -/
def Label.required (name : String) : Label := { name }

/-- What a typed value looks like. -/
inductive Shape where
  /-- A whole number of a range. -/
  | whole (width : Width)
  /-- A text. -/
  | string
  /-- A single known word, written as a text or as the only name of an object that holds null. -/
  | keyword (known : String)
  /-- Null, or a value of the inner shape. -/
  | optional (inner : Shape)
  /-- A list of values of one shape. -/
  | list (item : Shape)
  /-- A record with a name for messages. -/
  | record (name : String) (fields : List (Label × Shape))

namespace Shape

/-- What stands at the front of a text, for the message about a shape that does not fit. -/
def mismatchAt {α : Type} (wanted : String) (text : List Char) : Except Fault α :=
  match text with
  | [] => faultHere .endInValue []
  | c :: _ =>
    if c = '[' then faultHere (.mismatch .array wanted) text
    else if c = '{' then faultHere (.mismatch .object wanted) text
    else
      match readScalar text with
      | .error f => .error f
      | .ok (.null, _) => faultHere (.mismatch .null wanted) text
      | .ok (.bool b, _) => faultHere (.mismatch (.bool b) wanted) text
      | .ok (.number n, _) => faultHere (.mismatch (.number n) wanted) text
      | .ok (.string s, _) => faultHere (.mismatch (.string s) wanted) text
      | .ok (.array _, _) => faultHere (.mismatch .array wanted) text
      | .ok (.object _, _) => faultHere (.mismatch .object wanted) text

/-- A whole number of a range. -/
def readWhole (width : Width) : Reader Value := fun text =>
  match skipSpace text with
  | [] => faultHere .endInValue []
  | c :: rest => do
    if c = '-' || isDigit c then
      let (n, rest) ← if c = '-' then readNumber true rest else readNumber false (c :: rest)
      match n with
      | .whole n =>
        if width.holds n then .ok (.whole n, rest)
        else faultHere (.outOfRange n width.name) rest
      | n => faultHere (.mismatch (.number n) width.name) rest
    else mismatchAt width.name (c :: rest)

/-- A text. -/
def readText : Reader String := fun text =>
  match skipSpace text with
  | [] => faultHere .endInValue []
  | c :: rest => if c = '"' then readString rest else mismatchAt "a string" (c :: rest)

/-- Null and nothing else. -/
def readNull (text : List Char) : Except Fault (List Char) :=
  match skipSpace text with
  | [] => faultHere .endInValue []
  | c :: rest => if c = 'n' then readWord ['u', 'l', 'l'] rest else mismatchAt "unit" (c :: rest)

/-- Check a word against the known one. -/
def checkWord (known word : String) (text : List Char) : Except Fault Unit :=
  if word = known then .ok () else faultHere (.unknownWord word known) text

/-- A known word. -/
def readKnown (known : String) : Reader Value := fun text =>
  match skipSpace text with
  | [] => faultHere .endInValue []
  | c :: rest => do
    if c = '"' then
      let (word, rest) ← readString rest
      checkWord known word rest
      .ok (.string known, rest)
    else if c = '{' then
      match ← nextKey true rest with
      | none => faultNext .valueExpected (skipSpace rest)
      | some (word, rest) =>
        checkWord known word rest
        let rest ← readColon rest
        let rest ← readNull rest
        match skipSpace rest with
        | [] => faultHere .endInObject []
        | d :: rest =>
          if d = '}' then .ok (.string known, rest) else faultNext .valueExpected (d :: rest)
    else faultNext .valueExpected (c :: rest)

/-- Null, or a value of the inner shape. -/
def readOptional (inner : Reader Value) : Reader Value := fun text =>
  match skipSpace text with
  | [] => inner []
  | c :: rest =>
    if c = 'n' then (readWord ['u', 'l', 'l'] rest).map fun rest => (.null, rest)
    else inner (c :: rest)

/-- A list. -/
def readList (item : Reader Value) : Reader Value := fun text =>
  match skipSpace text with
  | [] => faultHere .endInValue []
  | c :: rest =>
    if c = '[' then (readArray item rest).map fun (items, rest) => (.array items, rest)
    else mismatchAt "a sequence" (c :: rest)

/-- How many fields a record has, in words. -/
def recordLength (name : String) (count : Nat) : String :=
  "struct " ++ name ++ " with " ++ toString count ++ (if count = 1 then " element" else " elements")

/-- The fields of a record from a list, in their order. `index` counts those before. -/
def readPositions (wanted : String) : Nat → List (Label × Reader Value) →
    Reader (List (String × Value))
  | _, [], text => .ok ([], text)
  | index, (label, field) :: rest, text => do
    match ← nextItem (index = 0) text with
    | some text =>
      let (value, text) ← field text
      let (members, text) ← readPositions wanted (index + 1) rest text
      .ok ((label.name, value) :: members, text)
    | none =>
      match label.cut with
      | some value =>
        let (members, text) ← readPositions wanted (index + 1) rest text
        .ok ((label.name, value) :: members, text)
      | none => faultHere (.badLength index wanted) text

/-- The members of a record's object, up to its closing brace. Names that no field has are passed
over; a field may be given once. -/
def readFields (fields : List (Label × Reader Value)) : Nat → Bool → List (String × Value) →
    Reader (List (String × Value))
  | 0, _, _, _ => faultHere .endInObject []
  | fuel + 1, first, found, text => do
    match ← nextKey first text with
    | none => .ok (found, text)
    | some (key, text) =>
      match fields.find? fun field => field.1.accepts key with
      | none =>
        let text ← readColon text
        let text ← skipValue text
        readFields fields fuel false found text
      | some (label, field) =>
        if (found.lookup label.name).isSome then faultHere (.repeated label.name) text
        else
          let text ← readColon text
          let (value, text) ← field text
          readFields fields fuel false ((label.name, value) :: found) text

/-- The members of a record in the order of its fields. A field that was not found takes its value
for being left out. -/
def orderFields (found : List (String × Value)) : List Label → Except Cause (List (String × Value))
  | [] => .ok []
  | label :: rest =>
    match (found.lookup label.name).or label.absent with
    | none => .error (.missing label.name)
    | some value => (orderFields found rest).map ((label.name, value) :: ·)

/-- A record. -/
def readRecord (name : String) (fields : List (Label × Reader Value)) : Reader Value := fun text =>
  match skipSpace text with
  | [] => faultHere .endInValue []
  | c :: rest => do
    if c = '[' then
      let (members, rest) ← readPositions (recordLength name fields.length) 0 fields rest
      let rest ← endArray rest
      .ok (.object members, rest)
    else if c = '{' then
      let (found, rest) ← readFields fields (rest.length + 1) true [] rest
      match orderFields found (fields.map Prod.fst) with
      | .error cause => faultHere cause rest
      | .ok members =>
        let rest ← endObject rest
        .ok (.object members, rest)
    else mismatchAt ("struct " ++ name) (c :: rest)

mutual

/-- Read a value of a shape. -/
def read : Shape → Reader Value
  | whole width => readWhole width
  | string => fun text => (readText text).map fun (s, rest) => (.string s, rest)
  | keyword known => readKnown known
  | optional inner => readOptional inner.read
  | list item => readList item.read
  | record name fields => readRecord name (readersOf fields)

/-- The readers of the fields of a record. -/
def readersOf : List (Label × Shape) → List (Label × Reader Value)
  | [] => []
  | (label, shape) :: rest => (label, shape.read) :: readersOf rest

end

/-- The fields of a record from a list of values. -/
def fitPositions : List (Label × (Value → Option Value)) → List Value →
    Option (List (String × Value))
  | [], [] => some []
  | [], _ :: _ => none
  | (label, field) :: rest, v :: values => do
    let v ← field v
    let members ← fitPositions rest values
    some ((label.name, v) :: members)
  | (label, _) :: rest, [] => do
    let v ← label.cut
    let members ← fitPositions rest []
    some ((label.name, v) :: members)

/-- The fields of a record from the members of an object. -/
def fitMembers (fields : List (Label × (Value → Option Value))) :
    List (String × Value) → List (String × Value) → Option (List (String × Value))
  | [], found => some found
  | (key, v) :: rest, found =>
    match fields.find? fun field => field.1.accepts key with
    | none => fitMembers fields rest found
    | some (label, field) =>
      if (found.lookup label.name).isSome then none
      else do
        let v ← field v
        fitMembers fields rest ((label.name, v) :: found)

mutual

/-- Bring a value into the form of a shape. -/
def fit? : Shape → Value → Option Value
  | whole width, .number (.whole n) => if width.holds n then some (.whole n) else none
  | string, .string s => some (.string s)
  | keyword known, .string s => if s = known then some (.string s) else none
  | keyword known, .object [(key, .null)] => if key = known then some (.string known) else none
  | optional _, .null => some .null
  | optional inner, v => inner.fit? v
  | list item, .array items => (items.mapM item.fit?).map .array
  | record _ fields, .array items => (fitPositions (fittersOf fields) items).map .object
  | record _ fields, .object members => do
    let found ← fitMembers (fittersOf fields) members []
    (orderFields found (fields.map Prod.fst)).toOption.map .object
  | _, _ => none

/-- How the fields of a record are fitted. -/
def fittersOf : List (Label × Shape) → List (Label × (Value → Option Value))
  | [] => []
  | (label, shape) :: rest => (label, shape.fit?) :: fittersOf rest

end

end Shape

/-- Read a whole text as a value of a shape. -/
def Shape.readDocument (shape : Shape) (text : List Char) : Except Fault Value := do
  let (value, rest) ← shape.read text
  endDocument rest
  .ok value

end CallIndex.Json
