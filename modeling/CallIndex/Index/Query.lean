import CallIndex.Batch.Basic
import CallIndex.Index.Resolve

/-!
# Queries

* `Index.callees`, `Index.callers`: the distinct neighbours of a method, in ascending order of ids.
  An unknown id is not found; a method without neighbours has an empty list.
* `Index.methodInDocument`: a method by its signature and its document.
* `Index.methodDetail`: a method by its id.
-/

namespace CallIndex.Index

/-- Put a neighbour into a list that is in ascending order of ids. One with the same id is kept
once. -/
def insertRef (r : MethodRef) : List MethodRef → List MethodRef
  | [] => [r]
  | s :: rest =>
    if r.methodId < s.methodId then r :: s :: rest
    else if r.methodId = s.methodId then s :: rest
    else s :: insertRef r rest

/-- The neighbours of a list, each id once, in ascending order. -/
def groupRefs (refs : List MethodRef) : List MethodRef :=
  refs.foldr insertRef []

variable (x : Index)

/-- A method as a neighbour: with the path of the document of its class. -/
def refOf? (id : RowId) : Option MethodRef := do
  let m ← x.methodById? id
  let d ← x.documentOf? m
  some ⟨m.id, m.signature, d.path⟩

/-- Refuse an id that no method has. -/
def ensureMethod (id : RowId) : Except Error Unit :=
  match x.methodById? id with
  | some _ => .ok ()
  | none => .error (.notFound ("method id " ++ toString id))

/-- The methods that a method calls: follow the calls out of it. -/
def callees (id : RowId) : Except Error (List MethodRef) := do
  x.ensureMethod id
  .ok (groupRefs ((x.calls.filter fun c => c.callerId = id).filterMap fun c => x.refOf? c.calleeId))

/-- The methods that call a method: follow the calls into it. -/
def callers (id : RowId) : Except Error (List MethodRef) := do
  x.ensureMethod id
  .ok (groupRefs ((x.calls.filter fun c => c.calleeId = id).filterMap fun c => x.refOf? c.callerId))

/-- The error for a signature that a document does not hold. -/
def notInDocument (signature document : String) : Error :=
  .notFound ("method " ++ signature ++ " in document " ++ document)

/-- Whether a method has this signature and stands in the document with this path. -/
def standsIn (signature document : String) (m : Method) : Bool :=
  m.signature = signature && (x.documentOf? m).any fun d => d.path = document

/-- A method by its signature and the path of its document, as source text. Neither may be
blank. -/
def methodInDocument (signature document : String) : Except Error MethodSource := do
  require .signature signature
  require .document document
  match x.methods.find? (x.standsIn signature document) with
  | some m => .ok ⟨methodText m.signature m.body, m.id⟩
  | none => .error (notInDocument signature document)

/-- A method by its id. -/
def methodDetail (id : RowId) : Except Error MethodDetail :=
  match x.methodById? id with
  | some m => .ok ⟨m.id, m.signature, m.body⟩
  | none => .error (.notFound ("method id " ++ toString id))

end CallIndex.Index
