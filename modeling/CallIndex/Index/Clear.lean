import CallIndex.Index.Basic

/-!
# Clear

* `Index.rowsOf`: the rows of a table, in ascending order of ids.
* `Index.isReferred`: some row of another table refers to this one.
* `Index.deleteTable`: delete every row of a table. The database refuses it when a row that is left
  refers to a deleted one.
* `Index.clear`: delete every row of every table, children before parents, all or nothing.
-/

namespace CallIndex.Index

/-- The rows of a table. -/
def rowsOf (x : Index) : Table → List Row
  | .projects => x.projects.map .ofProject
  | .documents => x.documents.map .ofDocument
  | .classes => x.classes.map .ofClass
  | .methods => x.methods.map .ofMethod
  | .methodCalls => x.calls.map .ofCall

/-- The index without the rows of a table. -/
def without (x : Index) : Table → Index
  | .projects => { x with projects := [] }
  | .documents => { x with documents := [] }
  | .classes => { x with classes := [] }
  | .methods => { x with methods := [] }
  | .methodCalls => { x with calls := [] }

/-- Some row refers to this one. -/
def isReferred (x : Index) : Row → Bool
  | .ofProject row => x.documents.any fun d => d.projectId = row.id
  | .ofDocument row => x.classes.any fun c => c.documentId = row.id
  | .ofClass row => x.methods.any fun m => m.classId = row.id
  | .ofMethod row => x.calls.any fun c => c.callerId = row.id || c.calleeId = row.id
  | .ofCall _ => false

/-- Delete the rows of a table. -/
def deleteTable (refuse : Refusal) (x : Index) (t : Table) : Except Error Index := do
  (x.rowsOf t).forM fun row => refuse.check (.delete row)
  if (x.rowsOf t).any x.isReferred then
    .error (.database .dangling)
  else
    .ok (x.without t)

/-- Delete every row, children before parents. -/
def clearTables (refuse : Refusal) (x : Index) : Except Error Index :=
  Table.all.reverse.foldlM (deleteTable refuse) x

/-- Delete every row, or none. -/
def clear (refuse : Refusal) (x : Index) : Index × Except Error Unit :=
  x.commit ((clearTables refuse x).map fun x => (x, ()))

end CallIndex.Index
