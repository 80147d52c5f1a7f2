import CallIndex.Config.Basic
import CallIndex.Files.DatabaseName
import CallIndex.Files.Tree

/-!
# Databases in a tree of files

* `FileTree.resolve`: the place of the file of a database. Names that go up are resolved as they are
  written.
* `OpenDatabase`: an open database, with its index.
* `FileTree.openDatabase`: the database that the settings name. The directories that its path lies
  in are made, and so is an empty database where there is none.
* `FileTree.storeIndex`: the tree with a new index in an open database.
-/

namespace CallIndex

/-- An open database. -/
structure OpenDatabase where
  /-- Where its file is. A database in memory has none. -/
  place : Option Place
  /-- Whether it may only be read. -/
  readOnly : Bool
  index : Index
  deriving DecidableEq, Repr

/-- The writes that an open database refuses. -/
def OpenDatabase.refusal (d : OpenDatabase) : Refusal :=
  if d.readOnly then .always else .never

namespace FileTree

/-- No connection to a database could be had. -/
def unreachable (problem : String) : Error :=
  .pool ("timed out waiting for connection: " ++ problem)

/-- The file of a database cannot be opened. -/
def unopened (name : String) : Error := unreachable ("unable to open database file: " ++ name)

/-- The length of a place as a path, in bytes. -/
def placeBytes (place : Place) : Nat :=
  place.foldr (fun name bytes => 1 + name.utf8ByteSize + bytes) 0

/-- The longest path on the way to a database, in bytes. -/
def maxStep : Nat := 511

/-- The longest path of a database, in bytes. The names of its helper files are longer. -/
def maxDatabasePath : Nat := 504

/-- The longest name of a database, in bytes. With `-journal` after it, it is still a name. -/
def maxDatabaseName : Nat := maxName - 8

/-- Whether something may stand at a place: what it lies in is not there, or is a directory and can
hold its name. -/
def canHold (t : FileTree) (place : Place) : Bool :=
  placeBytes place ≤ maxStep &&
    match place with
    | [] => true
    | name :: above =>
      match t.entry? above with
      | none => true
      | some .directory => name.utf8ByteSize ≤ maxName
      | some _ => false

/-- One step on the way to a database. -/
def resolveStep (t : FileTree) (place : Place) (name : String) : Option Place :=
  let next := Path.enter place name
  if t.canHold next then some next else none

/-- The place of the file of a database, if there can be a file. What it lies in has to be there. -/
def resolve (t : FileTree) (p : Path) : Option Place := do
  let place ← p.names.foldlM t.resolveStep (p.start t.home)
  if placeBytes place ≤ maxDatabasePath && t.entry? place.tail = some .directory then some place
  else none

/-- The tree with a new index in an open database. One in memory leaves no trace. -/
def storeIndex (t : FileTree) (d : OpenDatabase) (index : Index) : FileTree :=
  match d.place with
  | some place => if d.readOnly then t else t.put place (.database index)
  | none => t

/-- The tree with a file at a place, made empty if nothing stands there. -/
def touch (t : FileTree) (place : Place) : FileTree :=
  if (t.entry? place).isSome then t else t.put place (.file (.text ""))

/-- Make the tables of an empty database at a place. A path that may only be read and a name that is
too long for the helper files are found out by the first connection, a file that is said not to
change only by the first table. -/
def makeTables (t : FileTree) (d : DatabaseName) (place : Place) :
    FileTree × Except Error OpenDatabase :=
  let t := t.touch place
  if d.fixed then (t, .error (.database .readOnly))
  else if d.access = .read then (t, .error (unreachable DatabaseFault.readOnly.message))
  else if maxDatabaseName < (place.headD "").utf8ByteSize then
    (t, .error (unreachable "unable to open database file"))
  else
    (t.put place (.database .empty), .ok ⟨some place, false, .empty⟩)

/-- Open the database at a place. -/
def openAt (t : FileTree) (d : DatabaseName) (name : String) (place : Place) :
    FileTree × Except Error OpenDatabase :=
  match t.entry? place with
  | none => if d.access = .create then t.makeTables d place else (t, .error (unopened name))
  | some .directory =>
    (t, .error (if d.access = .read then unreachable "disk I/O error" else unopened name))
  | some (.file (.text "")) => t.makeTables d place
  | some (.file _) => (t, .error (unreachable "file is not a database"))
  | some (.database index) => (t, .ok ⟨some place, d.fixed || d.access = .read, index⟩)

/-- The place of the first character of code zero in a text, in bytes. -/
def zeroAt? (s : String) : Option Nat :=
  let before := s.toList.takeWhile (· ≠ '\x00')
  if before.length < s.toList.length then some (String.ofList before).utf8ByteSize else none

/-- Open the database of a name. -/
def openNamed (t : FileTree) (name : String) : FileTree × Except Error OpenDatabase :=
  match zeroAt? name with
  | some n =>
    (t, .error (unreachable ("nul byte found in provided data at position: " ++ toString n)))
  | none =>
    match DatabaseName.ofString name with
    | .error problem => (t, .error (unreachable problem))
    | .ok d =>
      match d.path with
      | none =>
        (t, if d.access = .read then .error (.database .readOnly)
          else .ok ⟨none, false, .empty⟩)
      | some p =>
        match t.resolve p with
        | none => (t, .error (unopened name))
        | some place => t.openAt d name place

/-- Open the database of the settings. -/
def openDatabase (t : FileTree) (c : Config) : FileTree × Except Error OpenDatabase :=
  match c.validate with
  | .error e => (t, .error e)
  | .ok () =>
    match t.makeFolders (Path.ofString c.database.path) with
    | (t, .error fault) => (t, .error (.io fault.message))
    | (t, .ok ()) => t.openNamed c.database.path

end FileTree

end CallIndex
