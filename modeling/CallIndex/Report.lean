import CallIndex.Row

/-!
# Reports

What an ingest did.

* `Skipped`: an item of a batch that could not be linked, and why. The rest of the batch is kept.
* `Report`: the ids and counts of one written batch, with what it skipped.
* `Outcome`: the short answer for one written batch.
-/

namespace CallIndex

/-- The item of a batch that was skipped. -/
inductive SkippedItem where
  | method (signature : String)
  | call (caller callee : String)
  deriving DecidableEq, Repr

/-- A skipped item with the reason. -/
structure Skipped where
  item : SkippedItem
  reason : String
  deriving DecidableEq, Repr

namespace Skipped

/-- What kind of item was skipped. -/
def kind (s : Skipped) : String :=
  match s.item with
  | .method _ => "method"
  | .call _ _ => "call"

/-- How the item is named: by its signature, or by both ends of the call. -/
def reference (s : Skipped) : String :=
  match s.item with
  | .method signature => signature
  | .call caller callee => caller ++ " -> " ++ callee

/-- The line that reports it. -/
def text (s : Skipped) : String :=
  s.kind ++ " " ++ s.reference ++ ": " ++ s.reason

def isMethod (s : Skipped) : Bool :=
  match s.item with
  | .method _ => true
  | .call _ _ => false

/-- A new method whose signature does not name a class. -/
def noClassPart (signature : String) : Skipped :=
  ⟨.method signature, "signature has no class part"⟩

/-- A new method whose class is not listed in the same batch. -/
def classNotListed (signature owner : String) : Skipped :=
  ⟨.method signature, "class " ++ owner ++ " is not part of this batch"⟩

/-- A call from a method that is not stored. -/
def callerNotIndexed (caller callee : String) : Skipped :=
  ⟨.call caller callee, "caller is not indexed"⟩

/-- A call to no stored method. -/
def calleeUnresolved (caller callee : String) : Skipped :=
  ⟨.call caller callee, "no method matches callee"⟩

end Skipped

/-- The status of a batch that was written. A batch that was not written has no outcome, so there is
one status only. -/
inductive Status where
  | success
  deriving DecidableEq, Repr

/-- The answer for a written batch: the id of its project. -/
structure Outcome where
  id : RowId
  status : Status := .success
  deriving DecidableEq, Repr

/-- The answer for a list of batches that stopped early. -/
structure BatchFailure where
  error : String
  deriving DecidableEq, Repr

/-- What the ingest of one batch did. `classes` counts the distinct class names of the batch. -/
structure Report where
  projectId : RowId
  documentId : RowId
  classes : Nat
  methodsInserted : Nat
  methodsUpdated : Nat
  callsInserted : Nat
  skipped : List Skipped
  deriving DecidableEq, Repr

/-- The short form of a report. -/
def Report.outcome (r : Report) : Outcome := { id := r.projectId }

/-- How many rows each table holds. -/
structure IndexStats where
  projects : Nat
  documents : Nat
  classes : Nat
  methods : Nat
  methodCalls : Nat
  deriving DecidableEq, Repr

end CallIndex
