import CallIndex.Text.Split

/-!
# Paths

A path is a text with names between slashes. The names `.` and `..` stay and go up.

* `Path.ofString`: a path from its text.
* `Path.ofNames`: the path with given names.
* `Place`: where a path leads, as the names down to it, the last one first.
* `Path.place`: the place of a path. Names that go up are resolved as they are written.
* `Path.folder`: the names of what a path lies in.
-/

namespace CallIndex

/-- A path, as it is written. -/
structure Path where
  /-- Whether it starts at the root. -/
  absolute : Bool
  /-- The names in it. None is empty. -/
  names : List String
  /-- Whether a slash ends it. -/
  slash : Bool
  /-- The length of the text, in bytes. -/
  bytes : Nat
  deriving DecidableEq, Repr

/-- A place: the names from the root down to it, the last one first. -/
abbrev Place := List String

namespace Path

/-- A path from its text. -/
def ofString (s : String) : Path where
  absolute := s.toList.head? = some '/'
  names := ((splitAt '/' s.toList).filter fun name => !name.isEmpty).map String.ofList
  slash := s.toList.getLast? = some '/'
  bytes := s.utf8ByteSize

/-- The path with these names. None of them is empty. -/
def ofNames (absolute : Bool) (names : List String) : Path :=
  let bytes := names.foldr (fun name bytes => 1 + name.utf8ByteSize + bytes) 0
  ⟨absolute, names, false, if absolute then bytes else bytes - 1⟩

/-- One step from a place. At the root there is no way up. -/
def enter (place : Place) (name : String) : Place :=
  if name = "." then place else if name = ".." then place.tail else name :: place

/-- The place where a path starts. -/
def start (home : Place) (p : Path) : Place := if p.absolute then [] else home

/-- The place of a path. -/
def place (home : Place) (p : Path) : Place := p.names.foldl enter (p.start home)

/-- The names that count: a name that stays does so only at the front. -/
def components (p : Path) : List String :=
  match p.names with
  | [] => []
  | name :: rest =>
    if name = "." && !p.absolute then name :: rest.filter (· ≠ ".")
    else (name :: rest).filter (· ≠ ".")

/-- The names of what a path lies in. -/
def folder (p : Path) : List String := p.components.dropLast

/-- A path that is a single name. -/
def isName (p : Path) (name : String) : Bool := !p.absolute && p.components = [name]

end Path

end CallIndex
