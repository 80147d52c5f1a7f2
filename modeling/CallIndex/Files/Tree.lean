import CallIndex.Files.Content
import CallIndex.Files.Path
import CallIndex.Index.Basic

/-!
# Trees of files

A tree holds directories, files and databases, each at its place. A database is a file that holds an
index; read as text it is bytes.

* `FileTree.locate`: the place of a path. All places on the way have to be directories, and names
  have a limit.
* `FileTree.find`: what a path leads to.
* `FileTree.read`: the content of the file at a path.
* `FileTree.write`: the tree with a file at a path.
* `FileTree.makeFolders`: the tree with all directories that a path lies in.
-/

namespace CallIndex

/-- What stands at a place. -/
inductive Entry where
  | directory
  | file (content : Content)
  | database (index : Index)
  deriving DecidableEq, Repr

/-- A tree of files, seen from a working directory. -/
structure FileTree where
  /-- The place of the working directory. -/
  home : Place
  /-- What stands where, newest first. -/
  entries : List (Place × Entry) := []
  deriving DecidableEq, Repr

namespace FileTree

variable (t : FileTree)

/-- What stands at a place. The working directory and all above it are directories. -/
def entry? (place : Place) : Option Entry :=
  if place.isSuffixOf t.home then some .directory else t.entries.lookup place

/-- The tree with an entry at a place. -/
def put (place : Place) (entry : Entry) : FileTree :=
  { t with entries := (place, entry) :: t.entries }

/-- The longest name that a directory can hold, in bytes. -/
def maxName : Nat := 255

/-- The longest text of a path, in bytes. -/
def maxPath : Nat := 4095

/-- Look up a name. What it is looked up in has to be a directory. -/
def step (place : Place) (name : String) : Except FileFault Place :=
  match t.entry? place with
  | none => .error .missing
  | some .directory =>
    if maxName < name.utf8ByteSize then .error .nameTooLong else .ok (Path.enter place name)
  | some _ => .error .notDirectory

/-- A path that can be used has no character of code zero and is not too long. -/
def checkPath (p : Path) : Except FileFault Unit :=
  if p.names.any fun name => name.toList.contains '\x00' then .error .zeroInName
  else if maxPath < p.bytes then .error .nameTooLong
  else .ok ()

/-- The place of a path, if the way there can be gone. Nothing has to stand at its end. -/
def locate (p : Path) : Except FileFault Place := do
  checkPath p
  if p.names.isEmpty && !p.absolute then .error .missing
  else p.names.foldlM t.step (p.start t.home)

/-- What a path leads to. A slash at its end asks for a directory. -/
def find (p : Path) : Except FileFault Entry := do
  let place ← t.locate p
  match t.entry? place with
  | none => .error .missing
  | some .directory => .ok .directory
  | some entry => if p.slash then .error .notDirectory else .ok entry

/-- Whether a path leads to something. -/
def has (p : Path) : Bool :=
  match t.find p with
  | .ok _ => true
  | .error _ => false

/-- The content of the file at a path. -/
def read (p : Path) : Except FileFault Content := do
  match ← t.find p with
  | .directory => .error .isDirectory
  | .file content => .ok content
  | .database _ => .ok .bytes

/-- The tree with a file at a path. -/
def write (p : Path) (content : Content) : Except FileFault FileTree := do
  let place ← t.locate p
  if p.slash || t.entry? place = some .directory then .error .isDirectory
  else .ok (t.put place (.file content))

/-- The tree with the directories along some names from a place. What was made stays made if a later
name fails. -/
def makeAlong (place : Place) : List String → FileTree → FileTree × Except FileFault Unit
  | [], t => (t, .ok ())
  | name :: rest, t =>
    match t.step place name with
    | .error fault => (t, .error fault)
    | .ok next =>
      match t.entry? next with
      | none => makeAlong next rest (t.put next .directory)
      | some .directory => makeAlong next rest t
      | some _ => (t, .error (if rest.isEmpty then .taken else .notDirectory))

/-- The tree with all directories that a path lies in. -/
def makeFolders (p : Path) : FileTree × Except FileFault Unit :=
  match checkPath (Path.ofNames p.absolute p.folder) with
  | .error fault => (t, .error fault)
  | .ok () => makeAlong (p.start t.home) p.folder t

/-- The tree with a file at a path, and with all directories that the path lies in. -/
def save (p : Path) (content : Content) : FileTree × Except FileFault Unit :=
  match t.makeFolders p with
  | (t, .error fault) => (t, .error fault)
  | (t, .ok ()) =>
    match t.write p content with
    | .ok t => (t, .ok ())
    | .error fault => (t, .error fault)

end FileTree

end CallIndex
