import CallIndex.Decimal.Numeral
import CallIndex.Index.Basic

/-!
# Guards

A guard makes the database refuse some writes to a table. It looks at a write before the database
makes it.

* `Row.text?`: the text of a row in a named column.
* `isNumeralOf`: whether a text is a numeral for an id.
* `Guard`: an event on a table, perhaps with a value that the row must hold, and the message of the
  refusal.
* `Guard.refusal`: what a list of guards refuses. The first guard that applies gives the message.
-/

namespace CallIndex

/-- The kind of a write. -/
inductive WriteEvent where
  | insert
  | update
  | delete
  deriving DecidableEq, Repr

namespace Write

def event : Write → WriteEvent
  | insert _ => .insert
  | update _ => .update
  | delete _ => .delete

def row : Write → Row
  | insert r => r
  | update r => r
  | delete r => r

/-- The id of the row, as it is known before the write: a row that is not yet there has -1. -/
def knownId : Write → RowId
  | insert _ => -1
  | update r => r.id
  | delete r => r.id

end Write

/-- The text in a named column. A number is no text. -/
def Row.text? : Row → String → Option String
  | .ofProject r, "name" => some r.name
  | .ofDocument r, "path" => some r.path
  | .ofClass r, "name" => some r.name
  | .ofMethod r, "name" => some r.name
  | .ofMethod r, "signature" => some r.signature
  | .ofMethod r, "body" => some r.body
  | _, _ => none

/-- The blanks that may stand around a numeral. -/
def isNumeralBlank (c : Char) : Bool := c = ' ' || ('\t' ≤ c && c ≤ '\r')

/-- Whether a text is a numeral for an id, perhaps with a sign and with blanks around it. -/
def isNumeralOf (id : RowId) (text : String) : Bool :=
  let bare := text.toList.dropWhile isNumeralBlank
  let bare := (bare.reverse.dropWhile isNumeralBlank).reverse
  match Decimal.Numeral.ofChars? (Decimal.dropSign bare) with
  | some n => n.equals id.natAbs && (id = 0 || (bare.head? = some '-') = (id < 0))
  | none => false

/-- A rule of the database that refuses a kind of write to a table. With a condition, it holds only
for rows with this value in this column. -/
structure Guard where
  event : WriteEvent
  table : Table
  message : String
  condition : Option (String × String) := none
  deriving DecidableEq, Repr

namespace Guard

/-- Whether the row of a write has a value in a column. The value is a text: an id is compared with
the number that the text means, and a column of other numbers never has it. -/
def isMet (w : Write) (column value : String) : Bool :=
  if column = "id" then isNumeralOf w.knownId value else w.row.text? column = some value

/-- Whether the guard is about this write. -/
def applies (g : Guard) (w : Write) : Bool :=
  w.event = g.event && w.row.table = g.table &&
    match g.condition with
    | none => true
    | some (column, value) => isMet w column value

/-- What a list of guards refuses. -/
def refusal (guards : List Guard) : Refusal := fun w =>
  (guards.find? fun g => g.applies w).map fun g => .rejected g.message

end Guard

end CallIndex
