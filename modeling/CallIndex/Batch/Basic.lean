import CallIndex.Error
import CallIndex.Text.Blank

/-!
# Batches

A batch holds what a source parser found in one document: its classes, its methods and the calls in
their bodies.

* `Batch.required`: the fields that must not be blank, in the order in which they are checked.
* `Batch.firstBlank`: the first of them that is blank.
* `Batch.validate`: refuses a batch for its first blank field.
-/

namespace CallIndex

/-- A method as a parser reports it. -/
structure MethodInput where
  signature : String
  body : String := ""
  startLine : Option UInt32 := none
  endLine : Option UInt32 := none
  deriving DecidableEq, Repr

/-- A call as a parser reports it. The callee may leave out its parameter list: it names every
method whose signature starts with it. -/
structure CallInput where
  caller : String
  callee : String
  deriving DecidableEq, Repr

/-- What was found in one document. -/
structure Batch where
  project : String
  document : String
  classes : List String := []
  methods : List MethodInput := []
  calls : List CallInput := []
  deriving DecidableEq, Repr

/-- A text that must not be blank, by its place in a request. -/
inductive Field where
  | project
  | document
  | signature
  | className (index : Nat)
  | methodSignature (index : Nat)
  | caller (index : Nat)
  | callee (index : Nat)
  deriving DecidableEq, Repr

/-- The place of a field as it is written in an error. -/
def Field.path : Field → String
  | project => "project"
  | document => "document"
  | signature => "signature"
  | className i => "classes[" ++ toString i ++ "]"
  | methodSignature i => "methods[" ++ toString i ++ "].signature"
  | caller i => "calls[" ++ toString i ++ "].caller"
  | callee i => "calls[" ++ toString i ++ "].callee"

/-- The refusal of a blank field. -/
def Error.required (field : Field) : Error :=
  .validation (field.path ++ " is required")

/-- Refuse a blank value. -/
def require (field : Field) (value : String) : Except Error Unit :=
  if isBlank value then .error (.required field) else .ok ()

namespace Batch

/-- The fields that must not be blank, with their values, in the order in which they are checked. -/
def required (b : Batch) : List (Field × String) :=
  [(.project, b.project), (.document, b.document)] ++
    (b.classes.zipIdx.map fun (name, i) => (Field.className i, name)) ++
    (b.methods.zipIdx.map fun (m, i) => (Field.methodSignature i, m.signature)) ++
    b.calls.zipIdx.flatMap fun (c, i) => [(Field.caller i, c.caller), (Field.callee i, c.callee)]

/-- The first required field that is blank. -/
def firstBlank (b : Batch) : Option Field :=
  (b.required.find? fun entry => isBlank entry.2).map Prod.fst

/-- Refuse a batch for its first blank field. -/
def validate (b : Batch) : Except Error Unit :=
  match b.firstBlank with
  | some field => .error (.required field)
  | none => .ok ()

end Batch

end CallIndex
