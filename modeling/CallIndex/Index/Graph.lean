import CallIndex.Index.Query
import CallIndex.Row.Json

/-!
# The whole graph

The whole graph is one join: each method with its class, its document and its project, once for each
pair of a call out of it and a call into it. The neighbours of a method are then gathered as JSON
texts, each distinct text once, and read back as a list.

* `Index.edgePairs`: the pairs of a callee and a caller over which the join runs. A side without a
  call counts once, as nothing.
* `Index.gatherEdges`: the neighbours on one side of the pairs, written, joined and read back.
* `Index.fullGraph`: one row for each method, in ascending order of ids.
-/

namespace CallIndex.Index

open Json

/-- The values of one side of a join, or nothing once if there are none. -/
def orNothing {α : Type} (as : List α) : List (Option α) :=
  if as.isEmpty then [none] else as.map some

variable (x : Index)

/-- Each call out of a method joined with each call into it: what the first calls, and what makes
the second. -/
def edgePairs (id : RowId) : List (Option EdgeRef × Option EdgeRef) :=
  let edge (id : RowId) : Option EdgeRef :=
    (x.methodById? id).map fun m => ⟨m.id, m.signature⟩
  let out := (orNothing (x.calls.filter fun c => c.callerId = id)).map fun c =>
    c.bind fun c => edge c.calleeId
  let into := (orNothing (x.calls.filter fun c => c.calleeId = id)).map fun c =>
    c.bind fun c => edge c.callerId
  out.flatMap fun callee => into.map fun caller => (callee, caller)

/-- The distinct JSON texts of some edges, joined by commas between brackets. There is no text for
no edge. -/
def gatheredText (edges : List (Option EdgeRef)) : Option String :=
  match (edges.filterMap id).map write with
  | [] => none
  | texts => some ("[" ++ String.intercalate "," texts.eraseDups ++ "]")

/-- Read a gathered text as edges, in the edge order. No text means no edge. -/
def readGathered : Option String → Except Error (List EdgeRef)
  | none => .ok []
  | some text =>
    match (Shape.list (Codec.shape EdgeRef)).readDocument text.toList with
    | .error f => .error (.database (.rejected (f.describe text.toList)))
    | .ok v => .ok (((decodeList? v).getD []).mergeSort EdgeRef.le)

/-- The neighbours on one side, gathered and read back. -/
def gatherEdges (edges : List (Option EdgeRef)) : Except Error (List EdgeRef) :=
  readGathered (gatheredText edges)

/-- The row of a method, if its class, its document and its project are there. -/
def graphRow? (m : Method) : Option (Except Error GraphRow) := do
  let c ← x.classById? m.classId
  let d ← x.documentById? c.documentId
  let p ← x.projectById? d.projectId
  let pairs := x.edgePairs m.id
  some do
    let callees ← gatherEdges (pairs.map Prod.fst)
    let callers ← gatherEdges (pairs.map Prod.snd)
    .ok ⟨p.id, p.name, d.id, d.path, c.id, c.name, m.id, m.name, m.signature, m.body, callees,
      callers⟩

/-- The methods in ascending order of ids. -/
def methodsById : List Method :=
  x.methods.mergeSort fun a b => a.id ≤ b.id

/-- Every method with its surroundings and its distinct neighbours. -/
def fullGraph : Except Error (List GraphRow) :=
  (x.methodsById.filterMap x.graphRow?).mapM id

end CallIndex.Index
