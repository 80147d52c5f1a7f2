import CallIndex.Cli.Run

/-!
# The program

The program looks at the files that a request can reach, runs the request over them, and writes what
has changed. A database is kept as the JSON text of its index.
-/

namespace CallIndex.Cli

open Json

/-- A place as an absolute path. -/
def placeText (place : Place) : String := "/" ++ String.intercalate "/" place.reverse

/-- The entry for the bytes of a file. -/
def entryOfBytes (bytes : ByteArray) : Entry :=
  match Content.ofBytes bytes with
  | .bytes => .file .bytes
  | .text s =>
    match read Index s with
    | .ok index => .database index
    | .error _ => .file (.text s)

/-- What stands at a place of the file system. -/
def look (place : Place) : IO (Option Entry) := do
  try
    return some (entryOfBytes (← IO.FS.readBinFile (placeText place)))
  catch
    | .noFileOrDirectory _ _ _ => return none
    | .inappropriateType _ _ _ => return some .directory
    | e => throw e

/-- Look at every place on the way along a path. -/
def survey (files : FileTree) (path : Path) : IO FileTree := do
  let mut files := files
  let mut place := path.start files.home
  for name in path.names do
    place := Path.enter place name
    if FileTree.maxName < name.utf8ByteSize || FileTree.maxPath < FileTree.placeBytes place ||
      name.toList.contains '\x00' then break
    match files.entry? place with
    | some _ => pure ()
    | none =>
      if let some entry ← look place then files := files.put place entry
      else break
  return files

/-- Look at what can be reached when the database of some settings is opened. -/
def surveyDatabase (files : FileTree) (c : Config) : IO FileTree := do
  let files ← survey files (Path.ofString c.database.path)
  match DatabaseName.ofString c.database.path with
  | .ok { path := some path, .. } => survey files path
  | _ => return files

/-- Write an entry to its place. -/
def writeEntry (place : Place) : Entry → IO Unit
  | .directory => IO.FS.createDirAll (placeText place)
  | .file (.text s) => IO.FS.writeFile (placeText place) s
  | .file .bytes => pure ()
  | .database index => IO.FS.writeFile (placeText place) (write index)

/-- Write what has changed, the oldest change first. -/
def writeChanges (before after : FileTree) : IO Unit := do
  for (place, _) in after.entries.reverse do
    match after.entry? place with
    | some entry => if before.entry? place ≠ some entry then writeEntry place entry
    | none => pure ()

/-- Print what a run leaves on its outputs. -/
def emit (o : Output) : IO UInt32 := do
  IO.print o.stdout
  IO.eprint o.stderr
  return UInt32.ofNat o.exit

/-- Whether a request reads the standard input. -/
def readsInput (r : Request) : Bool :=
  match r.command with
  | .ingest file => (Path.ofString file).isName "-"
  | _ => false

/-- What is said here of a settings file that is refused, whatever is wrong with it. -/
def refusedText (_ : String) : String := "not the YAML text of settings"

/-- Run a request over the file system. -/
def runRequest (r : Request) : IO UInt32 := do
  let home := (Path.ofString (← IO.currentDir).toString).place []
  let mut files : FileTree := { home }
  files ← survey files (Path.ofString (r.config.getD defaultConfigPath))
  if let .ingest file := r.command then files ← survey files (Path.ofString file)
  if let .ok c := settings refusedText files r then files ← surveyDatabase files c
  let stdin ←
    if readsInput r then
      pure (Content.ofBytes (← (← IO.getStdin).readBinToEnd))
    else pure (.text "")
  let (after, output) := serve refusedText files stdin r
  writeChanges files after
  emit output

end CallIndex.Cli

/-- Run the program with its arguments. -/
def main (args : List String) : IO UInt32 :=
  match CallIndex.Cli.parse args with
  | .error stop => CallIndex.Cli.emit stop.output
  | .ok request => CallIndex.Cli.runRequest request
