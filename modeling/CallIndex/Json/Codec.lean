import CallIndex.Json.Shape
import CallIndex.Json.Writer

/-!
# Types with a JSON form

* `Json.Encode`: types that can be written as JSON.
* `Json.Codec`: types that can be written and read back, with the shape that they are read by.
* `Json.write`, `Json.read`: a value as JSON text, and back.
-/

namespace CallIndex.Json

/-- A type that is written as JSON. -/
class Encode (α : Type) where
  encode : α → Value

/-- A type that is written as JSON and read back. A record has all its fields in order when it is
decoded. -/
class Codec (α : Type) extends Encode α where
  shape : Shape
  decode? : Value → Option α

export Encode (encode)
export Codec (decode?)

instance : Encode Int := ⟨.whole⟩
instance : Encode Nat := ⟨fun n => .whole n⟩
instance : Encode UInt32 := ⟨fun n => .whole n.toNat⟩
instance : Encode String := ⟨.string⟩
instance : Encode Bool := ⟨.bool⟩

instance {α : Type} [Encode α] : Encode (Option α) :=
  ⟨fun a => match a with
    | none => .null
    | some a => encode a⟩

instance {α : Type} [Encode α] : Encode (List α) := ⟨fun as => .array (as.map encode)⟩

/-- The JSON text of a value, on one line. -/
def write {α : Type} [Encode α] (a : α) : String := (encode a).compact

/-- Read a whole text. A value that has the shape of a type decodes, so the last case does not
arise. -/
def read (α : Type) [Codec α] (text : String) : Except Fault α := do
  let value ← (Codec.shape α).readDocument text.toList
  match decode? value with
  | some a => .ok a
  | none => faultHere .valueExpected []

/-- A line number as it is written, or null. -/
def decodeLine? : Value → Option (Option UInt32)
  | .null => some none
  | .number (.whole n) => some (some (UInt32.ofNat n.toNat))
  | _ => none

/-- A list of decoded items. -/
def decodeList? {α : Type} [Codec α] : Value → Option (List α)
  | .array items => items.mapM decode?
  | _ => none

/-- The shape of an id. -/
def idShape : Shape := .whole .signed64

/-- The shape of a line number that may be missing. -/
def lineShape : Shape := .optional (.whole .unsigned32)

end CallIndex.Json
