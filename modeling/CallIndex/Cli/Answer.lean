import CallIndex.Cli.Command
import CallIndex.Cli.Listing
import CallIndex.Index.Graph
import CallIndex.Index.Json
import CallIndex.Report.Json

/-!
# Answers

* `Cli.Answer`: the answer of a command, as a JSON value and as a text.
* `Cli.Query.answer`: what a query answers over an index.
* `Cli.failure`: the answer in JSON when a command fails.
-/

namespace CallIndex.Cli

open Json

/-- An answer in both forms. -/
structure Answer where
  value : Value
  text : String

namespace Answer

/-- An answer that is a value of the library. -/
def of {α : Type} [Encode α] (a : α) (text : String) : Answer := ⟨encode a, text⟩

/-- What is printed. A JSON value ends with a line feed. -/
def printed (a : Answer) (json : Bool) : String :=
  if json then a.value.pretty ++ "\n" else a.text

end Answer

/-- The answer in JSON when a command fails: one line. -/
def failure (e : Error) : String := write (BatchFailure.mk e.message) ++ "\n"

/-- A number with one digit after the point. A half goes to the even neighbour. -/
def tenths (n unit : Nat) : String :=
  let quotient := 10 * n / unit
  let rest := 2 * (10 * n % unit)
  let rounded :=
    if rest > unit || (rest = unit && quotient % 2 = 1) then quotient + 1 else quotient
  toString (rounded / 10) ++ "." ++ toString (rounded % 10)

/-- A number of bytes in the largest unit that it reaches. -/
def sizeText (bytes : Nat) : String :=
  if bytes ≥ Nat.pow 1024 3 then tenths bytes (Nat.pow 1024 3) ++ " GB"
  else if bytes ≥ Nat.pow 1024 2 then tenths bytes (Nat.pow 1024 2) ++ " MB"
  else if bytes ≥ 1024 then tenths bytes 1024 ++ " KB"
  else toString bytes ++ " B"

/-- The number of bytes that an index takes in a file. -/
def storedSize (x : Index) : Nat := (write x).utf8ByteSize

/-- The rows of a table as a JSON value. -/
def rowsValue (x : Index) : Table → Value
  | .projects => encode x.projects
  | .documents => encode x.documents
  | .classes => encode x.classes
  | .methods => encode x.methods
  | .methodCalls => encode x.calls

/-- What a query answers over an index. The path is that of the database, and the size that of the
file there, if there is one. -/
def Query.answer (path : String) (size : Option Nat) (x : Index) : Query → Except Error Answer
  | callees id => do
    let refs ← x.callees id
    .ok (.of (UsedMethods.mk refs) (neighboursText ("Methods used by " ++ idMark id ++ ":") refs))
  | callers id => do
    let refs ← x.callers id
    .ok (.of (RelatedMethods.mk refs) (neighboursText ("Callers of " ++ idMark id ++ ":") refs))
  | graph => do
    let rows ← x.fullGraph
    .ok (.of (GraphData.mk rows) (graphText rows))
  | method signature document => do
    let source ← x.methodInDocument signature document
    .ok (.of source (methodSourceText document source))
  | detail id => do
    let d ← x.methodDetail id
    .ok (.of d (detailText d))
  | context signature document => do
    let c ← x.callGraph.usage signature document
    .ok (.of c (usageText signature c))
  | related signature document => do
    let c ← x.callGraph.related signature document
    .ok (.of c (relatedText signature c))
  | prompt kind signature document => do
    let p ← x.callGraph.prompt kind signature document
    .ok (.of p (promptText p))
  | list table => .ok ⟨rowsValue x table, rowsText x table⟩
  | stats => .ok (.of x.stats (statsText path ((size.map sizeText).getD "size unknown") x.stats))

/-- What an ingest answers. -/
def ingestAnswer (reports : List Report) : Answer :=
  .of (reports.map Report.outcome) (ingestText reports)

end CallIndex.Cli
