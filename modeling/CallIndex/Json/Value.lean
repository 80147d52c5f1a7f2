import CallIndex.Decimal.Binary64

/-!
# JSON values

* `Json.Number`: a whole number of at most 64 bits, or a double precision number with its sign.
* `Json.Value`: a value. Members of an object keep their order, and a name may occur twice.
-/

namespace CallIndex.Json

/-- A number as it is read. A whole number that does not fit into 64 bits, signed or unsigned, is
read as a real one; so is minus zero. -/
inductive Number where
  | whole (n : Int)
  | real (negative : Bool) (magnitude : Decimal.Binary64)
  deriving DecidableEq, Repr

/-- A JSON value. -/
inductive Value where
  | null
  | bool (b : Bool)
  | number (n : Number)
  | string (s : String)
  | array (items : List Value)
  | object (members : List (String × Value))
  deriving Repr

/-- A whole number. -/
abbrev Value.whole (n : Int) : Value := .number (.whole n)

end CallIndex.Json
