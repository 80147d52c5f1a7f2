/-!
# Errors

* `DatabaseFault`: why the database rejected a write or a read.
* `Error`: why an operation was refused, by cause.
* `Error.message`: the text shown for it.
* `Error.causes`: the texts of the errors it wraps, outermost first.
-/

namespace CallIndex

/-- Why the database rejected a write or a read. -/
inductive DatabaseFault where
  /-- A rule of the database forbids it, or a stored value is not what it has to be. -/
  | rejected (problem : String)
  /-- A row that is left refers to a deleted one. -/
  | dangling
  /-- The database may only be read. -/
  | readOnly
  deriving DecidableEq, Repr

namespace DatabaseFault

/-- The text of a fault. -/
def message : DatabaseFault → String
  | rejected problem => problem
  | dangling => "FOREIGN KEY constraint failed"
  | readOnly => "attempt to write a readonly database"

/-- The texts of what a fault goes back to: itself, and the code of the database if it has one. -/
def causes : DatabaseFault → List String
  | readOnly => [readOnly.message, "Error code 8: Attempt to write a readonly database"]
  | fault => [fault.message]

end DatabaseFault

/-- Why an operation was refused. -/
inductive Error where
  /-- A method, signature or document does not resolve. -/
  | notFound (what : String)
  /-- A required value is missing or blank. -/
  | validation (problem : String)
  /-- The database rejected a write or a read. -/
  | database (fault : DatabaseFault)
  /-- No connection to the database could be had. -/
  | pool (problem : String)
  /-- A file could not be read or written. -/
  | io (problem : String)
  /-- A batch could not be decoded. -/
  | json (problem : String)
  /-- A setting or an argument is out of range. -/
  | config (problem : String)
  /-- A text producer failed. -/
  | generation (problem : String)
  /-- An internal rule was broken. -/
  | internal (problem : String)
  deriving DecidableEq, Repr

namespace Error

/-- The text of an error: what kind it is, then the details. -/
def message : Error → String
  | notFound what => "not found: " ++ what
  | validation problem => "validation error: " ++ problem
  | database fault => "database error: " ++ fault.message
  | pool problem => "connection pool error: " ++ problem
  | io problem => "I/O error: " ++ problem
  | json problem => "JSON error: " ++ problem
  | config problem => "configuration error: " ++ problem
  | generation problem => "generation error: " ++ problem
  | internal problem => "internal error: " ++ problem

/-- Errors of the database, the file system and the decoder wrap the error that they report. -/
def causes : Error → List String
  | database fault => fault.causes
  | pool problem => [problem]
  | io problem => [problem]
  | json problem => [problem]
  | _ => []

/-- Tells a missing method apart from a method without neighbours. -/
def isNotFound : Error → Bool
  | notFound _ => true
  | _ => false

/-- The request itself was malformed. -/
def isValidation : Error → Bool
  | validation _ => true
  | _ => false

end Error

end CallIndex
