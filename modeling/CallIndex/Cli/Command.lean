import CallIndex.Index.Basic
import CallIndex.Prompt

/-!
# Commands

* `Verb`: the names of the commands, and the operands that each one takes.
* `Query`, `Command`: what is to be done, with all its arguments.
* `Request`: a command with the settings that apply to all commands.
-/

namespace CallIndex.Cli

/-- The name of a command. -/
inductive Verb where
  | init
  | ingest
  | callees
  | callers
  | graph
  | method
  | detail
  | context
  | related
  | prompt
  | list
  | stats
  | clear
  deriving DecidableEq, Repr

/-- An argument without a name. -/
inductive Operand where
  | file
  | id
  | signature
  | document
  | table
  deriving DecidableEq, Repr

namespace Verb

def all : List Verb :=
  [init, ingest, callees, callers, graph, method, detail, context, related, prompt, list, stats,
    clear]

/-- The word that asks for a command. -/
def word : Verb → String
  | init => "init"
  | ingest => "ingest"
  | callees => "callees"
  | callers => "callers"
  | graph => "graph"
  | method => "method"
  | detail => "show"
  | context => "context"
  | related => "related"
  | prompt => "prompt"
  | list => "list"
  | stats => "stats"
  | clear => "clear"

/-- The command that a word asks for. -/
def ofWord? (s : String) : Option Verb := all.find? fun v => v.word = s

/-- The operands of a command, in order. All are required. -/
def operands : Verb → List Operand
  | ingest => [.file]
  | callees | callers | detail => [.id]
  | method | context | related | prompt => [.signature, .document]
  | list => [.table]
  | init | graph | stats | clear => []

end Verb

/-- A command that only reads. -/
inductive Query where
  | callees (id : RowId)
  | callers (id : RowId)
  /-- Every method with its neighbours. -/
  | graph
  /-- A method by its signature and its document. -/
  | method (signature document : String)
  /-- A method by its id. -/
  | detail (id : RowId)
  /-- A method with the sources of the methods that it calls. -/
  | context (signature document : String)
  /-- A method with the sources of its callers. -/
  | related (signature document : String)
  | prompt (kind : PromptKind) (signature document : String)
  /-- The rows of a table. -/
  | list (table : Table)
  | stats
  deriving DecidableEq, Repr

/-- What is to be done. -/
inductive Command where
  /-- Write a settings file and make the database. -/
  | init (force : Bool)
  /-- Ingest the batches of a file. -/
  | ingest (file : String)
  | ask (query : Query)
  /-- Delete every row, if that is confirmed. -/
  | clear (confirmed : Bool)
  deriving DecidableEq, Repr

/-- A command with its settings. -/
structure Request where
  /-- The path of the settings file, if one is named. -/
  config : Option String := none
  /-- The path of the database, if one is named. -/
  database : Option String := none
  /-- Whether the answer is wanted as JSON. -/
  json : Bool := false
  command : Command
  deriving DecidableEq, Repr

/-- The kind of prompt that a word asks for. -/
def promptKindOf? : String → Option PromptKind
  | "docstring" => some .docstring
  | "explain" => some .explain
  | "related" => some .related
  | _ => none

/-- The table that a word asks for. -/
def tableOf? : String → Option Table
  | "projects" => some .projects
  | "documents" => some .documents
  | "classes" => some .classes
  | "methods" => some .methods
  | "calls" => some .methodCalls
  | _ => none

/-- Digits as a number; `none` without digits or with something else. -/
def digits? : List Char → Option Nat
  | [] => none
  | cs =>
    if cs.all Char.isDigit then
      some (cs.foldl (fun n c => 10 * n + (c.toNat - '0'.toNat)) 0)
    else none

/-- An id: digits, after a sign or not, in the range of 64 bits. -/
def idOf? (s : String) : Option RowId :=
  let value : Option Int :=
    match s.toList with
    | '-' :: cs => (digits? cs).map fun n => -(n : Int)
    | '+' :: cs => (digits? cs).map fun n => (n : Int)
    | cs => (digits? cs).map fun n => (n : Int)
  value.filter fun n => -Int.pow 2 63 ≤ n && n < Int.pow 2 63

/-- Whether a text can stand for an operand. A path is never empty. -/
def Operand.accepts : Operand → String → Bool
  | file, s => s ≠ ""
  | id, s => (idOf? s).isSome
  | signature, _ => true
  | document, _ => true
  | table, s => (tableOf? s).isSome

end CallIndex.Cli
