import CallIndex.Context
import CallIndex.Prompt
import CallIndex.Report
import CallIndex.Text.Lines

/-!
# Listings

The answers of the commands as lines of text.

* `Cli.RefLine`, `Cli.refLines`: neighbours under the documents that they stand in. Documents are in
  ascending order of paths, the neighbours of each in ascending order of ids.
* `Cli.GraphLine`, `Cli.graphLines`: the whole graph. A document is named again where the next
  method stands in another one. Each list of neighbours is cut after ten.
* `Cli.sourceLines`: a source with a mark at the left.
* `Cli.rowLines`: the rows of a table.
-/

namespace CallIndex.Cli

/-- Lines as a text. -/
def textOf (lines : List String) : String := String.join (lines.map fun line => line ++ "\n")

/-- An id as it is shown. -/
def idMark (id : RowId) : String := "#" ++ toString id

/-- A source with a mark at the left of each line. -/
def sourceLines (text : String) : List String := (lines text).map fun line => "  │ " ++ line

/-! ### Neighbours -/

/-- The order of a list of neighbours: by path, then by id. -/
def refLe (a b : MethodRef) : Bool :=
  a.documentPath < b.documentPath ||
    (a.documentPath = b.documentPath && decide (a.methodId ≤ b.methodId))

/-- A line of a list of neighbours. -/
inductive RefLine where
  | nothing
  | document (path : String)
  | method (ref : MethodRef)
  deriving DecidableEq, Repr

def RefLine.text : RefLine → String
  | nothing => "  none"
  | document path => "  " ++ path ++ ":"
  | method ref => "    • " ++ ref.methodSignature ++ " " ++ idMark ref.methodId

/-- Name a document where it differs from the one above. -/
def underDocuments : Option String → List MethodRef → List RefLine
  | _, [] => []
  | above, r :: rest =>
    if above = some r.documentPath then .method r :: underDocuments above rest
    else .document r.documentPath :: .method r :: underDocuments (some r.documentPath) rest

/-- A list of neighbours. -/
def refLines (refs : List MethodRef) : List RefLine :=
  if refs.isEmpty then [.nothing] else underDocuments none (refs.mergeSort refLe)

/-! ### The whole graph -/

/-- The number of neighbours that the whole graph shows of a list. -/
def shownEdges : Nat := 10

/-- A side of a method in the graph. -/
inductive Side where
  | callees
  | callers
  deriving DecidableEq, Repr

def Side.label : Side → String
  | callees => "calls"
  | callers => "called by"

/-- A line of the whole graph. -/
inductive GraphLine where
  | document (path project : String)
  | method (id : RowId) (signature : String)
  /-- The start of a list of neighbours. -/
  | side (side : Side)
  /-- A list without neighbours. -/
  | noEdges (side : Side)
  | edge (edge : EdgeRef)
  /-- How many neighbours are not shown. -/
  | more (count : Nat)
  deriving DecidableEq, Repr

def GraphLine.text : GraphLine → String
  | document path project => path ++ " (" ++ project ++ ")"
  | method id signature => "  " ++ signature ++ " " ++ idMark id
  | side s => "    " ++ s.label ++ ":"
  | noEdges s => "    " ++ s.label ++ ": none"
  | edge e => "      • " ++ e.signature ++ " " ++ idMark e.id
  | more count => "      • ... and " ++ toString count ++ " more"

/-- A list of neighbours, cut. -/
def edgeLines (side : Side) (edges : List EdgeRef) : List GraphLine :=
  if edges.isEmpty then [.noEdges side]
  else
    .side side :: (edges.take shownEdges).map .edge ++
      (if edges.length > shownEdges then [.more (edges.length - shownEdges)] else [])

/-- A method with its neighbours. -/
def methodBlock (r : GraphRow) : List GraphLine :=
  .method r.methodId r.methodSignature :: edgeLines .callees r.callees ++
    edgeLines .callers r.callers

/-- The methods, with the name of a document where it differs from the one above. -/
def graphLines : Option String → List GraphRow → List GraphLine
  | _, [] => []
  | above, r :: rest =>
    (if above = some r.documentPath then [] else [.document r.documentPath r.projectName]) ++
      methodBlock r ++ graphLines (some r.documentPath) rest

/-- The whole graph as a text. -/
def graphText (rows : List GraphRow) : String :=
  if rows.isEmpty then "No methods indexed\n"
  else
    textOf ((graphLines none rows).map GraphLine.text ++
      ["", "Total: " ++ toString rows.length ++ " methods"])

/-! ### Rows -/

/-- An id with blanks in front, up to six characters. -/
def idColumn (id : RowId) : String :=
  let s := toString id
  String.ofList (List.replicate (6 - s.length) ' ') ++ s

def projectLine (r : Project) : String := idColumn r.id ++ "  " ++ r.name

def documentLine (r : Document) : String :=
  idColumn r.id ++ "  " ++ r.path ++ "  project=" ++ toString r.projectId

def classLine (r : Class) : String :=
  idColumn r.id ++ "  " ++ r.name ++ "  document=" ++ toString r.documentId

/-- Line numbers are shown when both are known. -/
def methodLine (r : Method) : String :=
  idColumn r.id ++ "  " ++ r.signature ++ "  class=" ++ toString r.classId ++
    match r.startLine, r.endLine with
    | some first, some last =>
      "  lines=" ++ toString first.toNat ++ "-" ++ toString last.toNat
    | _, _ => ""

def callLine (r : MethodCall) : String :=
  idColumn r.id ++ "  " ++ toString r.callerId ++ " -> " ++ toString r.calleeId

/-- The rows of a table, a line each. -/
def rowLines (x : Index) : Table → List String
  | .projects => x.projects.map projectLine
  | .documents => x.documents.map documentLine
  | .classes => x.classes.map classLine
  | .methods => x.methods.map methodLine
  | .methodCalls => x.calls.map callLine

/-- The rows of a table as a text. -/
def rowsText (x : Index) (table : Table) : String :=
  let rows := rowLines x table
  if rows.isEmpty then "none\n"
  else textOf (rows ++ ["", "Total: " ++ toString rows.length ++ " rows"])

/-! ### Single methods -/

def neighboursText (heading : String) (refs : List MethodRef) : String :=
  textOf (heading :: (refLines refs).map RefLine.text)

def detailText (d : MethodDetail) : String :=
  textOf ((idMark d.methodId ++ " " ++ d.methodSignature) :: sourceLines d.methodBody)

def methodSourceText (document : String) (s : MethodSource) : String :=
  textOf ((idMark s.methodId ++ " " ++ document) :: sourceLines s.method)

def usageText (signature : String) (c : UsageContext) : String :=
  textOf ([signature] ++ sourceLines c.method.method ++ ["", "Uses:"] ++
    (refLines c.usedMethods).map RefLine.text ++
    if c.hasUsedMethods then "" :: sourceLines c.auxiliary else [])

/-- A caller under its document. -/
def callerLines (u : RelatedUsage) : List String :=
  ["", "  " ++ u.documentPath ++ " " ++ idMark u.methodId] ++ sourceLines u.methodBody

def relatedText (signature : String) (c : RelatedContext) : String :=
  textOf ([signature] ++ sourceLines c.method.method ++ [""] ++
    if c.related.isEmpty then ["Called from: none"]
    else "Called from:" :: c.related.flatMap callerLines)

def promptText (p : Prompt) : String := textOf ["System", p.system, "", "User", p.user]

/-! ### Reports -/

/-- What the ingest of one batch did. -/
def reportLines (r : Report) : List String :=
  ("Ingested project #" ++ toString r.outcome.id ++ ": " ++ toString r.classes ++ " classes, " ++
    toString r.methodsInserted ++ " methods inserted, " ++ toString r.methodsUpdated ++
    " updated, " ++ toString r.callsInserted ++ " calls") ::
    r.skipped.map fun s => "    skipped " ++ s.text

def ingestText (reports : List Report) : String :=
  textOf (reports.flatMap reportLines ++
    ["", "Summary: " ++ toString reports.length ++ " batches, " ++
      toString (reports.foldr (fun r n => r.skipped.length + n) 0) ++ " skipped references"])

def statsText (path size : String) (s : IndexStats) : String :=
  textOf ["Docgraph Index Statistics", "", "  Database: " ++ path ++ " (" ++ size ++ ")", "",
    "  Projects: " ++ toString s.projects, "  Documents: " ++ toString s.documents,
    "  Classes: " ++ toString s.classes, "  Methods: " ++ toString s.methods,
    "  Calls: " ++ toString s.methodCalls]

def clearText (path : String) (before : IndexStats) : String :=
  textOf ["Cleared " ++ toString before.methods ++ " methods and " ++
    toString before.methodCalls ++ " calls from " ++ path]

def initText (settings database : String) : String :=
  textOf ["Wrote " ++ settings, "Database " ++ database]

end CallIndex.Cli
