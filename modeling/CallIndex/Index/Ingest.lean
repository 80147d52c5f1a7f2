import CallIndex.Batch.Basic
import CallIndex.Index.Resolve
import CallIndex.Signature

/-!
# Ingest

A batch is written in five dependent steps: its project, its document, its classes, its methods and
its calls. Rows that exist are reused. An item that cannot be linked is skipped and reported.

* `Index.resolveProject`, `Index.resolveDocument`, `Index.resolveClass`: find a row or insert it. An
  existing row keeps its links, whatever the batch says.
* `Index.writeMethod`: replace the text of a stored method, or insert a new one into its class.
* `Index.writeCall`: insert an edge between two stored methods. Edges are never merged.
* `Index.writeBatch`: the five steps.
* `Index.ingest`: all of a valid batch, or nothing.
* `Index.ingestAll`: check every batch first, then write them one at a time, and stop at the first
  one that fails. What was written before stays.
-/

namespace CallIndex.Index

/-- What became of a method of a batch. -/
inductive MethodEffect where
  | inserted
  | updated
  | skipped (reason : Skipped)
  deriving DecidableEq, Repr

/-- What became of a call of a batch. -/
inductive CallEffect where
  | inserted
  | skipped (reason : Skipped)
  deriving DecidableEq, Repr

def MethodEffect.skipped? : MethodEffect → Option Skipped
  | skipped reason => some reason
  | _ => none

def CallEffect.skipped? : CallEffect → Option Skipped
  | skipped reason => some reason
  | _ => none

variable (refuse : Refusal)

/-- The project of this name, inserted if it is not there. -/
def resolveProject (x : Index) (name : String) : Except Error (Index × RowId) :=
  match x.projectByName? name with
  | some row => .ok (x, row.id)
  | none => do
    let row : Project := ⟨nextId (x.projects.map Project.id), name⟩
    refuse.check (.insert (.ofProject row))
    .ok ({ x with projects := x.projects ++ [row] }, row.id)

/-- The document of this path, inserted under the given project if it is not there. A document that
is there keeps its project. -/
def resolveDocument (x : Index) (projectId : RowId) (path : String) :
    Except Error (Index × RowId) :=
  match x.documentByPath? path with
  | some row => .ok (x, row.id)
  | none => do
    let row : Document := ⟨nextId (x.documents.map Document.id), projectId, path⟩
    refuse.check (.insert (.ofDocument row))
    .ok ({ x with documents := x.documents ++ [row] }, row.id)

/-- The class of this name, inserted under the given document if it is not there. Its name comes
back with its id. -/
def resolveClass (documentId : RowId) (x : Index) (name : String) :
    Except Error (Index × (String × RowId)) :=
  match x.classByName? name with
  | some row => .ok (x, (name, row.id))
  | none => do
    let row : Class := ⟨nextId (x.classes.map Class.id), documentId, name⟩
    refuse.check (.insert (.ofClass row))
    .ok ({ x with classes := x.classes ++ [row] }, (name, row.id))

/-- Replace the row with the same id. -/
def replaceMethod (row : Method) (methods : List Method) : List Method :=
  methods.map fun m => if m.id = row.id then row else m

/-- Write a method. If its signature is stored, its body and lines are replaced. If not, it is
inserted into the class that its signature names, provided that the batch lists that class. -/
def writeMethod (classIds : List (String × RowId)) (x : Index) (m : MethodInput) :
    Except Error (Index × MethodEffect) :=
  match x.methodBySignature? m.signature with
  | some stored => do
    let row := { stored with body := m.body, startLine := m.startLine, endLine := m.endLine }
    refuse.check (.update (.ofMethod row))
    .ok ({ x with methods := replaceMethod row x.methods }, .updated)
  | none =>
    match splitSignature m.signature with
    | none => .ok (x, .skipped (.noClassPart m.signature))
    | some parts =>
      match classIds.lookup parts.owner with
      | none => .ok (x, .skipped (.classNotListed m.signature parts.owner))
      | some classId => do
        let row : Method :=
          ⟨nextId (x.methods.map Method.id), classId, parts.name, m.signature, m.body,
            m.startLine, m.endLine⟩
        refuse.check (.insert (.ofMethod row))
        .ok ({ x with methods := x.methods ++ [row] }, .inserted)

/-- Write a call. The caller is a stored signature, the callee one that a stored signature starts
with. -/
def writeCall (x : Index) (c : CallInput) : Except Error (Index × CallEffect) :=
  match x.methodBySignature? c.caller with
  | none => .ok (x, .skipped (.callerNotIndexed c.caller c.callee))
  | some caller =>
    match x.resolveCallee c.callee with
    | none => .ok (x, .skipped (.calleeUnresolved c.caller c.callee))
    | some callee => do
      let row : MethodCall := ⟨nextId (x.calls.map MethodCall.id), caller.id, callee.id⟩
      refuse.check (.insert (.ofCall row))
      .ok ({ x with calls := x.calls ++ [row] }, .inserted)

/-- Write a batch: project, document, classes, methods, calls. -/
def writeBatch (x : Index) (b : Batch) : Except Error (Index × Report) := do
  let (x, projectId) ← resolveProject refuse x b.project
  let (x, documentId) ← resolveDocument refuse x projectId b.document
  let (x, classIds) ← runAll (resolveClass refuse documentId) x b.classes
  let (x, methods) ← runAll (writeMethod refuse classIds) x b.methods
  let (x, calls) ← runAll (writeCall refuse) x b.calls
  .ok (x, {
    projectId
    documentId
    classes := b.classes.eraseDups.length
    methodsInserted := methods.countP (· = .inserted)
    methodsUpdated := methods.countP (· = .updated)
    callsInserted := calls.countP (· = .inserted)
    skipped := methods.filterMap MethodEffect.skipped? ++ calls.filterMap CallEffect.skipped? })

/-- Check a batch and write it, all or nothing. -/
def ingest (x : Index) (b : Batch) : Index × Except Error Report :=
  x.commit do
    b.validate
    writeBatch refuse x b

/-- Write batches one at a time, up to the first that fails. -/
def ingestEach (x : Index) : List Batch → Index × Except Error (List Report)
  | [] => (x, .ok [])
  | b :: rest =>
    match ingest refuse x b with
    | (x, .error e) => (x, .error e)
    | (x, .ok report) =>
      match ingestEach x rest with
      | (x, .error e) => (x, .error e)
      | (x, .ok reports) => (x, .ok (report :: reports))

/-- Refuse a list of batches for the first blank field in it. -/
def validateAll : List Batch → Except Error Unit
  | [] => .ok ()
  | b :: rest => do
    b.validate
    validateAll rest

/-- Check all batches, then write them one at a time, up to the first that fails. -/
def ingestAll (x : Index) (batches : List Batch) : Index × Except Error (List Report) :=
  match validateAll batches with
  | .error e => (x, .error e)
  | .ok () => ingestEach refuse x batches

end CallIndex.Index
