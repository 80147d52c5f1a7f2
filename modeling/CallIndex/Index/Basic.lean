import CallIndex.Error
import CallIndex.Row
import CallIndex.Report

/-!
# The index

The index is five tables of rows, each in ascending order of ids. It is a value: a write makes a new
index, and a write that the database refuses makes none.

* `Index`: the five tables.
* `Index.nextId`: the id of a new row, one more than the largest of its table.
* `Write` and `Refusal`: the single changes of one row, and which of them the database refuses.
* `Index.runAll`: one step for each item of a list, stopping at the first refusal.
* `Index.commit`: keep the index of a finished step, or the old one if the step failed.
-/

namespace CallIndex

/-- The stored call graph. -/
structure Index where
  projects : List Project := []
  documents : List Document := []
  classes : List Class := []
  methods : List Method := []
  calls : List MethodCall := []
  deriving DecidableEq, Repr

/-- The tables, parents before children. -/
inductive Table where
  | projects
  | documents
  | classes
  | methods
  | methodCalls
  deriving DecidableEq, Repr

namespace Table

/-- Every table, parents before children. -/
def all : List Table := [projects, documents, classes, methods, methodCalls]

def name : Table → String
  | projects => "projects"
  | documents => "documents"
  | classes => "classes"
  | methods => "methods"
  | methodCalls => "method_calls"

end Table

/-- A row of any table. -/
inductive Row where
  | ofProject (row : Project)
  | ofDocument (row : Document)
  | ofClass (row : Class)
  | ofMethod (row : Method)
  | ofCall (row : MethodCall)
  deriving DecidableEq, Repr

/-- The table a row belongs to. -/
def Row.table : Row → Table
  | ofProject _ => .projects
  | ofDocument _ => .documents
  | ofClass _ => .classes
  | ofMethod _ => .methods
  | ofCall _ => .methodCalls

def Row.id : Row → RowId
  | ofProject row => row.id
  | ofDocument row => row.id
  | ofClass row => row.id
  | ofMethod row => row.id
  | ofCall row => row.id

/-- A change of one row. An update carries the row with its new values. -/
inductive Write where
  | insert (row : Row)
  | update (row : Row)
  | delete (row : Row)
  deriving DecidableEq, Repr

/-- Which writes the database refuses, and why. -/
abbrev Refusal := Write → Option DatabaseFault

namespace Refusal

/-- Nothing is refused. -/
def never : Refusal := fun _ => none

/-- Every write is refused: the database may only be read. -/
def always : Refusal := fun _ => some .readOnly

/-- Let a write pass, or fail with the fault of its refusal. -/
def check (refuse : Refusal) (w : Write) : Except Error Unit :=
  match refuse w with
  | some fault => .error (.database fault)
  | none => .ok ()

end Refusal

namespace Index

/-- The index without any row. -/
def empty : Index := {}

/-- The id of a new row: one more than the largest id of the table, and 1 in an empty table. -/
def nextId (ids : List RowId) : RowId := ids.foldl max 0 + 1

/-- The number of rows of each table. -/
def stats (x : Index) : IndexStats :=
  ⟨x.projects.length, x.documents.length, x.classes.length, x.methods.length, x.calls.length⟩

/-- Run a step for each item, each on the index that the one before it left, and collect what they
return. The first refusal ends the run. -/
def runAll {α β : Type} (step : Index → α → Except Error (Index × β)) :
    Index → List α → Except Error (Index × List β)
  | x, [] => .ok (x, [])
  | x, a :: rest => do
    let (x, b) ← step x a
    let (x, bs) ← runAll step x rest
    .ok (x, b :: bs)

/-- Keep what a finished step made, or go back to the index it started from. -/
def commit {α : Type} (x : Index) : Except Error (Index × α) → Index × Except Error α
  | .ok (x', a) => (x', .ok a)
  | .error e => (x, .error e)

end Index

end CallIndex
