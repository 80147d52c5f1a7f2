/-!
# Rows of the index

The index has five tables. A row refers to others by their ids; an id is unique within its table.

* `Project`, `Document`, `Class`, `Method`, `MethodCall`: one row of each table.
* `MethodRef`, `EdgeRef`, `GraphRow`, `MethodSource`, `MethodDetail`: rows that queries answer
  with.
* `methodText`: a method as source text.
-/

namespace CallIndex

/-- The id of a row. -/
abbrev RowId := Int

/-- A project. Its name is unique. -/
structure Project where
  id : RowId
  name : String
  deriving DecidableEq, Repr

/-- A source document. Its path is unique in the whole index. -/
structure Document where
  id : RowId
  projectId : RowId
  path : String
  deriving DecidableEq, Repr

/-- A class, by its full name, with the document in which it was first seen. -/
structure Class where
  id : RowId
  documentId : RowId
  name : String
  deriving DecidableEq, Repr

/-- A method, by its full signature, with the class that owns it. -/
structure Method where
  id : RowId
  classId : RowId
  name : String
  signature : String
  body : String
  startLine : Option UInt32
  endLine : Option UInt32
  deriving DecidableEq, Repr

/-- A call from one method to another. Several calls between the same two may be stored. -/
structure MethodCall where
  id : RowId
  callerId : RowId
  calleeId : RowId
  deriving DecidableEq, Repr

/-- A neighbour of a method, with the document in which it is defined. -/
structure MethodRef where
  methodId : RowId
  methodSignature : String
  documentPath : String
  deriving DecidableEq, Repr

/-- A neighbour of a method as the whole graph lists it. -/
structure EdgeRef where
  id : RowId
  signature : String
  deriving DecidableEq, Repr

/-- A method of the whole graph: where it stands, and its distinct neighbours. -/
structure GraphRow where
  projectId : RowId
  projectName : String
  documentId : RowId
  documentPath : String
  classId : RowId
  className : String
  methodId : RowId
  methodName : String
  methodSignature : String
  methodBody : String
  callees : List EdgeRef
  callers : List EdgeRef
  deriving DecidableEq, Repr

/-- A method as source text, with its id. -/
structure MethodSource where
  method : String
  methodId : RowId
  deriving DecidableEq, Repr

/-- A method by its id. -/
structure MethodDetail where
  methodId : RowId
  methodSignature : String
  methodBody : String
  deriving DecidableEq, Repr

/-- A method as source text: the signature, a line feed, the body. -/
def methodText (signature body : String) : String :=
  signature ++ "\n" ++ body

/-- The edge order: by id, then by signature. Texts compare by code point, which is the order of
their encoded bytes. -/
def EdgeRef.le (a b : EdgeRef) : Bool :=
  a.id < b.id || (a.id == b.id && decide (a.signature ≤ b.signature))

/-- A list of edges in the edge order, each one once. -/
def EdgeRef.sortDistinct (edges : List EdgeRef) : List EdgeRef :=
  (edges.mergeSort EdgeRef.le).eraseReps

end CallIndex
