import CallIndex.Config.Basic
import CallIndex.Files.Content
import CallIndex.Yaml.Node
import CallIndex.Yaml.Writer

/-!
# Settings files

Settings are kept in a YAML text. Every key may be left out.

* `Config.ofDocument?`: the settings of a document. Unknown keys are ignored, a key that is given
  twice is refused.
* `Config.parse`: the settings of a text, checked.
* `Config.load`: the settings of a file's content.
* `Config.save`: the text of settings; it reads back.
-/

namespace CallIndex.Config

open Yaml

/-- The error of a text that is no settings file. What is wrong with the text is said in words that the
YAML library has for it, here a function of the text. -/
def malformed (complaint : String → String) (path text : String) : Error :=
  .config (path ++ ": " ++ complaint text)

/-- The entries of a mapping. An empty value is a mapping without entries. -/
def entries? (d : Yaml.Document) (node : Node) : Option (List (Node × Node)) :=
  match d.resolve node with
  | .mapping entries => some entries
  | .scalar _ .plain "" => some []
  | _ => none

/-- The text of a scalar of any kind. -/
def text? (d : Yaml.Document) (node : Node) : Option String :=
  match d.resolve node with
  | .scalar _ _ text => some text
  | _ => none

/-- The tag of whole numbers. -/
def wholeTag : List UInt8 := asciiBytes "tag:yaml.org,2002:int".toList

/-- A natural number below a limit, without quotes. Lines of their own may say what they are by a
tag. -/
def number? (limit : Nat) (d : Yaml.Document) (node : Node) : Option Nat :=
  match d.resolve node with
  | .scalar tag style text =>
    if style = .plain || (style = .literal && tag = some wholeTag) then
      (wholeNumber? (Nat.pow 2 64) text.toList).filter fun n => n < limit
    else none
  | _ => none

/-- The values of known keys, first given first. An unknown key is ignored, whatever its value; a
known one may be given once. -/
def known? (d : Yaml.Document) (keys : List String) :
    List (String × Node) → List (Node × Node) → Option (List (String × Node))
  | found, [] => some found
  | found, (k, v) :: rest =>
    match text? d k with
    | none => none
    | some key =>
      if keys.contains key then
        if (found.lookup key).isSome then none else known? d keys ((key, v) :: found) rest
      else known? d keys found rest

/-- The value of a key by a reader, or a default if the key is not there. -/
def field? {α : Type} (found : List (String × Node)) (key : String) (otherwise : α)
    (read : Node → Option α) : Option α :=
  match found.lookup key with
  | none => some otherwise
  | some node => read node

/-- The settings of the database. -/
def databaseOf? (d : Yaml.Document) (node : Node) : Option DatabaseConfig := do
  let entries ← entries? d node
  let found ← known? d ["path", "pool-size", "pool-min-idle", "busy-timeout-ms"] [] entries
  let base : DatabaseConfig := {}
  let path ← field? found "path" base.path (text? d)
  let poolSize ← field? found "pool-size" base.poolSize fun node =>
    (number? (Nat.pow 2 32) d node).map UInt32.ofNat
  let poolMinIdle ← field? found "pool-min-idle" base.poolMinIdle fun node =>
    (number? (Nat.pow 2 32) d node).map UInt32.ofNat
  let busyTimeoutMs ← field? found "busy-timeout-ms" base.busyTimeoutMs fun node =>
    (number? (Nat.pow 2 64) d node).map UInt64.ofNat
  some { path, poolSize, poolMinIdle, busyTimeoutMs }

/-- The settings of a document. -/
def ofDocument? (d : Yaml.Document) : Option Config := do
  let entries ← entries? d d.root
  let found ← known? d ["database"] [] entries
  let database ← field? found "database" {} (databaseOf? d)
  some ⟨database⟩

/-- The settings of a text, checked. The path is that of the file, for messages. -/
def parse (complaint : String → String) (path text : String) : Except Error Config :=
  match (Yaml.Document.parse? text.toList).bind ofDocument? with
  | none => .error (malformed complaint path text)
  | some c =>
    match c.validate with
    | .ok () => .ok c
    | .error e => .error e

/-- The settings of a file's content. -/
def load (complaint : String → String) (path : String) : Content → Except Error Config
  | .text s => parse complaint path s
  | .bytes => .error (.io FileFault.notText.message)

/-- A key with a number. -/
def numberLine (key : String) (n : Nat) : List Char :=
  (key ++ ": " ++ toString n ++ "\n").toList

/-- The text of settings. -/
def saveChars (c : Config) : List Char :=
  "database:\n  path: ".toList ++ scalarLine 4 c.database.path ++
    numberLine "  pool-size" c.database.poolSize.toNat ++
    numberLine "  pool-min-idle" c.database.poolMinIdle.toNat ++
    numberLine "  busy-timeout-ms" c.database.busyTimeoutMs.toNat

/-- The text of settings. -/
def save (c : Config) : String := String.ofList c.saveChars

end CallIndex.Config
