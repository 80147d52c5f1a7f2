import CallIndex.Files.Path
import CallIndex.Text.Hex

/-!
# Names of databases

A database is named by the path of its file. The name `:memory:` stands for a database without a
file, which is empty at first and gone in the end. A name that starts with `file:` is an address: a
path, and options after a question mark, with characters written as `%` and two hexadecimal digits.

* `Access`: what may be done with the file of a database.
* `DatabaseName`: where a database is, and how it is opened.
* `DatabaseName.ofString`: what a name means.
-/

namespace CallIndex

/-- What may be done with the file of a database. -/
inductive Access where
  | read
  | write
  /-- Read and write it, and make it if it is not there. -/
  | create
  deriving DecidableEq, Repr

/-- Where a database is, and how it is opened. -/
structure DatabaseName where
  /-- The path of its file. A database in memory has none. -/
  path : Option Path
  access : Access := .create
  /-- Whether the file is said not to change. It is not written then. -/
  fixed : Bool := false
  deriving DecidableEq, Repr

/-- An option that an address sets. -/
structure AddressOption where
  name : String
  value : String
  deriving DecidableEq, Repr

namespace DatabaseName

/-- The bytes that a part of an address means. A byte zero drops the rest of the part. -/
def partBytes : List Char → List UInt8
  | [] => []
  | '%' :: a :: b :: rest =>
    match hexDigit? a, hexDigit? b with
    | some a, some b =>
      if 16 * a + b = 0 then [] else UInt8.ofNat (16 * a + b) :: partBytes rest
    | _, _ => 0x25 :: partBytes (a :: b :: rest)
  | c :: rest => String.utf8EncodeChar c ++ partBytes rest

/-- Bytes as a text. If they are none, each byte that is not a character of its own is unknown. -/
def textOfBytes (bytes : List UInt8) : String :=
  match String.fromUTF8? ⟨bytes.toArray⟩ with
  | some s => s
  | none => String.ofList (bytes.map fun b => if b < 0x80 then Char.ofNat b.toNat else '\uFFFD')

/-- The text that a part of an address means. -/
def partText (part : List Char) : String := textOfBytes (partBytes part)

/-- The options between ampersands. An option without a name does not count. -/
def optionsOf (text : List Char) : List AddressOption :=
  ((splitAt '&' text).map fun piece =>
    ⟨partText (piece.takeWhile (· ≠ '=')), partText ((piece.dropWhile (· ≠ '=')).drop 1)⟩).filter
    fun o => o.name ≠ ""

/-- The value of an option that is given, the first time it is. -/
def option? (options : List AddressOption) (name : String) : Option String :=
  (options.find? fun o => o.name = name).map AddressOption.value

/-- A word that means yes: `on`, `yes` or `true` in letters of either case, or a number other than
zero. Only the last byte of a number counts. -/
def isYes (word : String) : Bool :=
  let digits := word.toList.takeWhile Char.isDigit
  let lower := word.toList.map Char.toLower
  if digits.isEmpty then
    lower = "on".toList || lower = "yes".toList || lower = "true".toList
  else
    digits.foldl (fun n c => n * 10 + (c.toNat - '0'.toNat)) 0 % 256 ≠ 0

/-- How an address asks for a database: on a file with some access, or in memory. -/
inductive Mode where
  | onFile (access : Access)
  | inMemory
  deriving DecidableEq, Repr

namespace Mode

def ofWord? : String → Option Mode
  | "ro" => some (onFile .read)
  | "rw" => some (onFile .write)
  | "rwc" => some (onFile .create)
  | "memory" => some inMemory
  | _ => none

/-- Whether a mode may follow another one. Access to a file can be lessened, but not raised. -/
def canFollow (mode earlier : Mode) : Bool :=
  match mode, earlier with
  | onFile .write, onFile .read => false
  | onFile .create, onFile .read => false
  | onFile .create, onFile .write => false
  | _, _ => true

end Mode

/-- The mode that options ask for, or what is wrong with the first wrong one. -/
def modeOf (mode : Mode) : List AddressOption → Except String Mode
  | [] => .ok mode
  | o :: rest =>
    if o.name = "cache" then
      if o.value = "shared" || o.value = "private" then modeOf mode rest
      else .error ("no such cache mode: " ++ o.value)
    else if o.name = "mode" then
      match Mode.ofWord? o.value with
      | none => .error ("no such access mode: " ++ o.value)
      | some next =>
        if next.canFollow mode then modeOf next rest
        else .error ("access mode not allowed: " ++ o.value)
    else modeOf mode rest

/-- The ways to reach files that an address can name. -/
def fileSystems : List String := ["unix", "unix-none", "unix-dotfile", "unix-excl"]

/-- The way to reach a database that is not on a file. -/
def memorySystem : String := "memdb"

/-- The way to reach the database that options name last, if they do. -/
def system? (options : List AddressOption) : Option String := option? options.reverse "vfs"

/-- The address without its authority: nothing or this computer between two slashes and the next
one. -/
def dropAuthority : List Char → Except String (List Char)
  | '/' :: '/' :: rest =>
    let authority := rest.takeWhile (· ≠ '/')
    if authority.isEmpty || authority = "localhost".toList then .ok (rest.dropWhile (· ≠ '/'))
    else .error ("invalid uri authority: " ++ String.ofList authority)
  | text => .ok text

/-- The database at a path. No path, and one that says so, stand for memory. -/
def atPath (path : String) (access : Access) (fixed : Bool) : DatabaseName :=
  if path = "" || path = ":memory:" then ⟨none, access, false⟩
  else ⟨some (Path.ofString path), access, fixed⟩

/-- What an address means after its first word. -/
def ofAddress (text : List Char) : Except String DatabaseName := do
  let text := (← dropAuthority text).takeWhile (· ≠ '#')
  let options := optionsOf ((text.dropWhile (· ≠ '?')).drop 1)
  let mode ← modeOf (.onFile .create) options
  let system := (system? options).getD "unix"
  if system ≠ memorySystem && !fileSystems.contains system then
    .error ("no such vfs: " ++ system)
  else
    match mode with
    | .inMemory => .ok ⟨none, .create, false⟩
    | .onFile access =>
      if system = memorySystem then .ok ⟨none, access, false⟩
      else
        .ok (atPath (partText (text.takeWhile (· ≠ '?'))) access
          ((option? options "immutable").any isYes))

/-- What a name means. -/
def ofString (name : String) : Except String DatabaseName :=
  match name.toList with
  | 'f' :: 'i' :: 'l' :: 'e' :: ':' :: rest => ofAddress rest
  | _ => .ok (atPath name .create false)

end DatabaseName

end CallIndex
