import CallIndex.Cli.Answer
import CallIndex.Cli.Arguments
import CallIndex.Config.File
import CallIndex.Files.Database
import CallIndex.Index.Clear
import CallIndex.Index.Decode

/-!
# Runs of the program

A run reads its arguments, a tree of files and a standard input. It leaves a tree of files, an exit
code, and what it printed. A command prints when all its work is done, so a command that fails
prints nothing but its error. What the YAML library says of a settings file that it refuses is a
parameter of the run.

* `Cli.settings`: the settings of a request. Those of a named file have to be there, but for a
  command that makes them.
* `Cli.perform`: a command over a tree of files.
* `Cli.run`: a run.
-/

namespace CallIndex.Cli

/-- What a run leaves on its outputs. -/
structure Output where
  exit : Nat
  stdout : String := ""
  stderr : String := ""
  deriving DecidableEq, Repr

/-- A file that cannot be read or written is an error of its own. -/
def orError {α : Type} : Except FileFault α → Except Error α
  | .ok a => .ok a
  | .error fault => .error (.io fault.message)

/-- The settings of the file at a path. -/
def readSettings (complaint : String → String) (files : FileTree) (path : String) :
    Except Error Config := do
  let content ← orError (files.read (Path.ofString path))
  Config.load complaint path content

/-- The settings of a request before a database is named: those of the named file, or else of the
usual file if there is one, or else the usual ones. A command that makes a settings file does not
need the named one. -/
def baseSettings (complaint : String → String) (files : FileTree) (named : Option String)
    (making : Bool) : Except Error Config :=
  let has (path : String) : Bool := files.has (Path.ofString path)
  match named with
  | some path => if making && !has path then .ok .default else readSettings complaint files path
  | none =>
    if has defaultConfigPath then readSettings complaint files defaultConfigPath else .ok .default

/-- A command that makes a settings file. -/
def Command.makesSettings : Command → Bool
  | .init _ => true
  | _ => false

/-- The settings of a request. A database that is named replaces that of the settings. -/
def settings (complaint : String → String) (files : FileTree) (r : Request) :
    Except Error Config := do
  let c ← baseSettings complaint files r.config r.command.makesSettings
  match r.database with
  | some path => .ok { c with database := { c.database with path } }
  | none => .ok c

/-- The number of bytes of the file at a path. What is no text and no database has none. -/
def sizeAt? (files : FileTree) (path : String) : Option Nat :=
  match files.find (Path.ofString path) with
  | .ok (.database index) => some (storedSize index)
  | .ok (.file (.text s)) => some s.utf8ByteSize
  | _ => none

/-- Answer a query over the database of the settings. -/
def ask (files : FileTree) (c : Config) (q : Query) : FileTree × Except Error Answer :=
  match files.openDatabase c with
  | (files, .error e) => (files, .error e)
  | (files, .ok d) =>
    (files, q.answer c.database.path (sizeAt? files c.database.path) d.index)

/-- Write the settings to a file, and make the database. A file that is there already is kept,
unless it may be replaced. -/
def makeSettings (files : FileTree) (c : Config) (path : String) (force : Bool) :
    FileTree × Except Error String :=
  if files.has (Path.ofString path) && !force then
    (files, .error (.config (path ++ " already exists (use --force to overwrite)")))
  else
    match c.validate with
    | .error e => (files, .error e)
    | .ok () =>
      match files.save (Path.ofString path) (.text c.save) with
      | (files, .error fault) => (files, .error (.io fault.message))
      | (files, .ok ()) =>
        match files.openDatabase c with
        | (files, .error e) => (files, .error e)
        | (files, .ok _) => (files, .ok (initText path c.database.path))

/-- The text of the file that is to be ingested. A single dash stands for the standard input. -/
def batchText (files : FileTree) (stdin : Content) (file : String) : Except Error String := do
  let path := Path.ofString file
  let content ← if path.isName "-" then .ok stdin else orError (files.read path)
  orError content.asText

/-- Ingest the batches of a file. The file is read before the database is opened. -/
def ingest (files : FileTree) (stdin : Content) (c : Config) (file : String) :
    FileTree × Except Error Answer :=
  match batchText files stdin file with
  | .error e => (files, .error e)
  | .ok text =>
    match files.openDatabase c with
    | (files, .error e) => (files, .error e)
    | (files, .ok d) =>
      let (index, reports) := d.index.ingestJson d.refusal text
      (files.storeIndex d index, reports.map ingestAnswer)

/-- Delete every row, if that is confirmed. A database that may only be read refuses it, even
without a row. -/
def clear (files : FileTree) (c : Config) (confirmed : Bool) : FileTree × Except Error String :=
  if confirmed then
    match files.openDatabase c with
    | (files, .error e) => (files, .error e)
    | (files, .ok d) =>
      if d.readOnly then (files, .error (.database .readOnly))
      else
        let (cleared, result) := d.index.clear d.refusal
        (files.storeIndex d cleared,
          result.map fun _ => clearText c.database.path d.index.stats)
  else (files, .error (.validation "clear deletes every indexed row; pass --yes to confirm"))

/-- A command over a tree of files: the tree it leaves, and what it prints. -/
def perform (files : FileTree) (stdin : Content) (r : Request) (c : Config) :
    FileTree × Except Error String :=
  let printed : FileTree × Except Error Answer → FileTree × Except Error String
    | (files, answer) => (files, answer.map fun a => a.printed r.json)
  match r.command with
  | .init force => makeSettings files c (r.config.getD defaultConfigPath) force
  | .ingest file => printed (ingest files stdin c file)
  | .ask q => printed (ask files c q)
  | .clear confirmed => clear files c confirmed

/-- An error with the errors that it wraps. -/
def errorText (e : Error) : String :=
  textOf (("error: " ++ e.message) :: e.causes.map fun cause => "  caused by: " ++ cause)

/-- What a request prints. An error is also printed as JSON, if that is wanted. -/
def outcome (json : Bool) : Except Error String → Output
  | .ok text => ⟨0, text, ""⟩
  | .error e => ⟨1, if json then failure e else "", errorText e⟩

/-- Run a request. -/
def serve (complaint : String → String) (files : FileTree) (stdin : Content) (r : Request) :
    FileTree × Output :=
  match settings complaint files r with
  | .error e => (files, outcome r.json (.error e))
  | .ok c =>
    let (files, result) := perform files stdin r c
    (files, outcome r.json result)

/-- The line of wrong usage, and the first of the help. -/
def usageLine : String := "Usage: docgraph [OPTIONS] <COMMAND>"

/-- The help: the usage, the commands and the options that all of them have. -/
def helpText : String :=
  textOf ([usageLine, "", "Commands:"] ++ (Verb.all.map fun v => "  " ++ v.word) ++
    ["  " ++ helpWord, "", "Options:"] ++ Switch.shared.map fun s => "  --" ++ s.long)

/-- The version of the program, as one of its commands names it. -/
def versionText (verb : Option Verb) : String :=
  let name := match verb with
    | some v => "docgraph-" ++ v.word
    | none => "docgraph"
  textOf [name ++ " 0.1.0"]

/-- What is printed when there is no request. -/
def Stop.output : Stop → Output
  | usage => ⟨2, "", textOf [usageLine]⟩
  | help => ⟨0, helpText, ""⟩
  | version verb => ⟨0, versionText verb, ""⟩

/-- Run the program. -/
def run (complaint : String → String) (files : FileTree) (stdin : Content) (args : List String) :
    FileTree × Output :=
  match parse args with
  | .error stop => (files, stop.output)
  | .ok r => serve complaint files stdin r

end CallIndex.Cli
