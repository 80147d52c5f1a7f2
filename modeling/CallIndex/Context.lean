import CallIndex.Index.Query
import CallIndex.Row.Json

/-!
# Context of a method

The context of a method is the method with the source of its neighbours. It is assembled over any
call graph that answers three queries; the index is one of them.

* `CallGraph`: the three queries.
* `CallGraph.usage`: a method with the sources of the methods that it calls.
* `CallGraph.related`: a method with the sources and the places of the methods that call it.
* `Index.callGraph`: the queries of an index.

A neighbour that no longer resolves is left out. Any other error ends the assembly.
-/

namespace CallIndex

/-- What context is assembled over. Any answers are allowed: a listed neighbour may be missing, be
listed twice, or fail to load. -/
structure CallGraph where
  callees : RowId → Except Error (List MethodRef)
  callers : RowId → Except Error (List MethodRef)
  methodInDocument : String → String → Except Error MethodSource

/-- The queries of an index. -/
def Index.callGraph (x : Index) : CallGraph := ⟨x.callees, x.callers, x.methodInDocument⟩

/-- A method with the sources of the methods that it calls, joined by line feeds. -/
structure UsageContext where
  method : MethodSource
  usedMethods : List MethodRef
  auxiliary : String
  deriving DecidableEq, Repr

/-- Whether any source was collected. -/
def UsageContext.hasUsedMethods (c : UsageContext) : Bool := c.auxiliary ≠ ""

/-- A caller: its source, and the document it stands in. -/
structure RelatedUsage where
  methodId : RowId
  methodBody : String
  documentPath : String
  deriving DecidableEq, Repr

/-- A method with its callers. -/
structure RelatedContext where
  method : MethodSource
  related : List RelatedUsage
  deriving DecidableEq, Repr

namespace CallGraph

variable (g : CallGraph)

/-- The source of a neighbour. One that is not found has none. -/
def neighbourSource (r : MethodRef) : Except Error (Option MethodSource) :=
  match g.methodInDocument r.methodSignature r.documentPath with
  | .ok source => .ok (some source)
  | .error (.notFound _) => .ok none
  | .error e => .error e

/-- The neighbours that resolve, in the order of the list, each with its source. -/
def resolveAll : List MethodRef → Except Error (List (MethodRef × MethodSource))
  | [] => .ok []
  | r :: rest => do
    let source ← g.neighbourSource r
    let others ← resolveAll rest
    match source with
    | some source => .ok ((r, source) :: others)
    | none => .ok others

/-- A method with the sources of the methods that it calls. -/
def usage (signature document : String) : Except Error UsageContext := do
  let method ← g.methodInDocument signature document
  let callees ← g.callees method.methodId
  let resolved ← g.resolveAll callees
  .ok ⟨method, callees, String.intercalate "\n" (resolved.map fun r => r.2.method)⟩

/-- A method with the sources and the places of the methods that call it. -/
def related (signature document : String) : Except Error RelatedContext := do
  let method ← g.methodInDocument signature document
  let callers ← g.callers method.methodId
  let resolved ← g.resolveAll callers
  .ok ⟨method, resolved.map fun r => ⟨r.2.methodId, r.2.method, r.1.documentPath⟩⟩

end CallGraph

open Json

instance : Encode UsageContext where
  encode c := .object [
    ("method", encode c.method),
    ("used_methods", encode c.usedMethods),
    ("auxiliary", .string c.auxiliary)]

instance : Encode RelatedUsage where
  encode u := .object [
    ("method_id", encode u.methodId),
    ("method_body", .string u.methodBody),
    ("document_path", .string u.documentPath)]

instance : Encode RelatedContext where
  encode c := .object [("method", encode c.method), ("related", encode c.related)]

end CallIndex
