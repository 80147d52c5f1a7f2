import CallIndex.Text.Hex
import CallIndex.Yaml.Char

/-!
# Scalars as they are written

* `Yaml.Gap`: the blanks and line breaks between two words. A single break stands for a space, and
  further breaks for themselves.
* `Yaml.readPlain`: a scalar without quotes.
* `Yaml.readSingle`, `Yaml.readDouble`: a scalar in single or double quotes.
* `Yaml.readBlock`: a scalar that takes indented lines, literal or folded.
-/

namespace CallIndex.Yaml

/-- What a reader of scalars leaves: the text of the scalar, the place after it, and the rest. -/
structure Lexeme where
  text : List Char
  place : Place
  rest : List Char
  deriving DecidableEq, Repr

/-- Put text in front of a lexeme. -/
def Lexeme.cons (text : List Char) (l : Lexeme) : Lexeme := { l with text := text ++ l.text }

/-- Blanks and breaks that are read and not yet placed. -/
structure Gap where
  blanks : List Char
  first : List Char
  further : List Char
  broken : Bool
  deriving DecidableEq, Repr

namespace Gap

/-- Nothing read. -/
def empty : Gap := ⟨[], [], [], false⟩

/-- A line that ends with a backslash: its break stands for nothing. -/
def joined : Gap := ⟨[], [], [], true⟩

/-- Something is read. -/
def isPending (g : Gap) : Bool := g.broken || !g.blanks.isEmpty

/-- A blank; after a break it is indentation. -/
def blank (g : Gap) (c : Char) : Gap := if g.broken then g else { g with blanks := g.blanks ++ [c] }

/-- A break; blanks before the first one are dropped. -/
def lineBreak (g : Gap) (text : List Char) : Gap :=
  if g.broken then { g with further := g.further ++ text } else ⟨[], text, [], true⟩

/-- What the gap stands for between two words. -/
def text (g : Gap) : List Char :=
  if g.broken then
    if g.first = ['\n'] then if g.further.isEmpty then [' '] else g.further
    else g.first ++ g.further
  else g.blanks

end Gap

/-! ### Plain scalars -/

/-- The characters that end a plain scalar inside brackets. -/
def isFlowMark (c : Char) : Bool := c == ',' || c == '[' || c == ']' || c == '{' || c == '}'

/-- A colon inside brackets, with a mark right after it. -/
def isBadColon (inFlow : Bool) (c : Char) : List Char → Bool
  | d :: _ => inFlow && c = ':' && (isFlowMark d || d = '?')
  | [] => false

/-- A plain scalar, with the gap that was read after its last word. -/
def readPlain (inFlow : Bool) (indent : Nat) (place : Place) (gap : Gap) :
    List Char → Option (Lexeme × Gap)
  | [] => some (⟨[], place, []⟩, gap)
  | '\r' :: '\n' :: rest => readPlain inFlow indent (place.down 2) (gap.lineBreak ['\n']) rest
  | c :: rest =>
    if isBlank c then
      if gap.broken && place.column < indent && c = '\t' then none
      else readPlain inFlow indent (place.right 1) (gap.blank c) rest
    else if isBreak c then
      readPlain inFlow indent (place.down c.utf8Size) (gap.lineBreak (breakText c)) rest
    else if gap.isPending && !inFlow && place.column < indent then
      some (⟨[], place, c :: rest⟩, gap)
    else if place.column = 0 && atDocumentMark (c :: rest) then some (⟨[], place, c :: rest⟩, gap)
    else if gap.isPending && c = '#' then some (⟨[], place, c :: rest⟩, gap)
    else if isBadColon inFlow c rest then none
    else if (c = ':' && atGap rest) || (inFlow && isFlowMark c) then
      some (⟨[], place, c :: rest⟩, gap)
    else
      (readPlain inFlow indent (place.next c) .empty rest).map fun (l, last) =>
        (l.cons (gap.text ++ [c]), last)

/-! ### Quoted scalars -/

/-- The number that some hexadecimal digits write. -/
def hexNumber? (digits : List Char) : Option Nat :=
  digits.foldlM (fun n c => (hexDigit? c).map fun d => n * 16 + d) 0

/-- The character of an escape with one letter. -/
def letterEscape? (c : Char) : Option Char :=
  match c with
  | '0' => some '\x00'
  | 'a' => some '\x07'
  | 'b' => some '\x08'
  | 't' => some '\t'
  | '\t' => some '\t'
  | 'n' => some '\n'
  | 'v' => some '\x0b'
  | 'f' => some '\x0c'
  | 'r' => some '\r'
  | 'e' => some '\x1b'
  | ' ' => some ' '
  | '"' => some '"'
  | '/' => some '/'
  | '\\' => some '\\'
  | 'N' => some (Char.ofNat 0x85)
  | '_' => some (Char.ofNat 0xA0)
  | 'L' => some (Char.ofNat 0x2028)
  | 'P' => some (Char.ofNat 0x2029)
  | _ => none

/-- The character with a number; halves of surrogate pairs are none. -/
def charOfNumber? (n : Nat) : Option Char := if n.isValidChar then some (Char.ofNat n) else none

/-- The character of an escape by number. -/
def numberEscape? (digits : List Char) : Option Char := (hexNumber? digits).bind charOfNumber?

/-- A scalar in single quotes, after the opening one. A quote in it is written twice. -/
def readSingle (place : Place) (gap : Gap) : List Char → Option Lexeme
  | [] => none
  | '\r' :: '\n' :: rest => readSingle (place.down 2) (gap.lineBreak ['\n']) rest
  | '\'' :: '\'' :: rest =>
    (readSingle (place.right 2) .empty rest).map (Lexeme.cons (gap.text ++ ['\'']))
  | c :: rest =>
    if isBlank c then readSingle (place.right 1) (gap.blank c) rest
    else if isBreak c then readSingle (place.down c.utf8Size) (gap.lineBreak (breakText c)) rest
    else if c = '\'' then some ⟨gap.text, place.right 1, rest⟩
    else if place.column = 0 && atDocumentMark (c :: rest) then none
    else (readSingle (place.next c) .empty rest).map (Lexeme.cons (gap.text ++ [c]))

/-- Put a gap and the character of an escape in front of what follows, if there is such a
character. -/
def consEscape (gap : Gap) (e : Option Char) (l : Option Lexeme) : Option Lexeme :=
  e.bind fun e => l.map (Lexeme.cons (gap.text ++ [e]))

/-- A scalar in double quotes, after the opening one. A backslash starts an escape, or joins two
lines. -/
def readDouble (place : Place) (gap : Gap) : List Char → Option Lexeme
  | [] => none
  | '\r' :: '\n' :: rest => readDouble (place.down 2) (gap.lineBreak ['\n']) rest
  | '\\' :: '\r' :: '\n' :: rest =>
    (readDouble (place.down 3) .joined rest).map (Lexeme.cons gap.text)
  | '\\' :: 'x' :: a :: b :: rest =>
    consEscape gap (numberEscape? [a, b]) (readDouble (place.right 4) .empty rest)
  | '\\' :: 'u' :: a :: b :: c :: d :: rest =>
    consEscape gap (numberEscape? [a, b, c, d]) (readDouble (place.right 6) .empty rest)
  | '\\' :: 'U' :: a :: b :: c :: d :: e :: f :: g :: h :: rest =>
    consEscape gap (numberEscape? [a, b, c, d, e, f, g, h])
      (readDouble (place.right 10) .empty rest)
  | '\\' :: c :: rest =>
    if isBreak c then
      (readDouble (place.down (1 + c.utf8Size)) .joined rest).map (Lexeme.cons gap.text)
    else consEscape gap (letterEscape? c) (readDouble ((place.right 1).next c) .empty rest)
  | c :: rest =>
    if isBlank c then readDouble (place.right 1) (gap.blank c) rest
    else if isBreak c then readDouble (place.down c.utf8Size) (gap.lineBreak (breakText c)) rest
    else if c = '"' then some ⟨gap.text, place.right 1, rest⟩
    else if place.column = 0 && atDocumentMark (c :: rest) then none
    else (readDouble (place.next c) .empty rest).map (Lexeme.cons (gap.text ++ [c]))

/-! ### Block scalars -/

/-- What happens to the breaks at the end of a block scalar. -/
inductive Chomp where
  /-- All are dropped. -/
  | strip
  /-- One is kept. -/
  | clip
  /-- All are kept. -/
  | keep
  deriving DecidableEq, Repr

/-- The header of a block scalar. -/
structure BlockHeader where
  chomp : Chomp
  /-- The depth of its lines, if it is said. -/
  depth : Option Nat
  deriving DecidableEq, Repr

def chompOf? (c : Char) : Option Chomp :=
  if c = '-' then some .strip else if c = '+' then some .keep else none

def depthOf? (c : Char) : Option Nat :=
  if '1' ≤ c ∧ c ≤ '9' then some (c.toNat - '0'.toNat) else none

/-- The marks after the indicator of a block scalar, in either order, and how many they are. A depth
of zero is refused. -/
def readHeader? : List Char → Option (BlockHeader × Nat)
  | c :: rest =>
    match chompOf? c, depthOf? c with
    | some chomp, _ =>
      match rest with
      | d :: _ =>
        if d = '0' then none
        else
          match depthOf? d with
          | some depth => some (⟨chomp, some depth⟩, 2)
          | none => some (⟨chomp, none⟩, 1)
      | [] => some (⟨chomp, none⟩, 1)
    | none, some depth =>
      match rest.head?.bind chompOf? with
      | some chomp => some (⟨chomp, some depth⟩, 2)
      | none => some (⟨.clip, some depth⟩, 1)
    | none, none => if c = '0' then none else some (⟨.clip, none⟩, 0)
  | [] => some (⟨.clip, none⟩, 0)

/-- The empty lines in front of a line of a block scalar: their breaks, the greatest column reached,
the place and the rest. Spaces are passed up to the depth of the block, or all of them while the
depth is not known. A tab cannot take the place of such a space. -/
def readEmptyLines (depth : Option Nat) (place : Place) (widest : Nat) :
    List Char → Option (List Char × Nat × Place × List Char)
  | [] => some ([], max widest place.column, place, [])
  | '\r' :: '\n' :: rest =>
    (readEmptyLines depth (place.down 2) (max widest place.column) rest).map
      fun (breaks, found) => ('\n' :: breaks, found)
  | c :: rest =>
    let within := depth.all fun d => place.column < d
    if c = ' ' && within then readEmptyLines depth (place.right 1) widest rest
    else if c = '\t' && within then none
    else if isBreak c then
      (readEmptyLines depth (place.down c.utf8Size) (max widest place.column) rest).map
        fun (breaks, found) => (breakText c ++ breaks, found)
    else some ([], max widest place.column, place, c :: rest)

/-- How the lines of a block scalar are joined. -/
inductive BlockKind where
  | literal
  | folded
  deriving DecidableEq, Repr

/-- What stands between a line and the next one: its break and the empty lines after it. In a folded
scalar one break between two lines that do not start with a blank stands for a space. -/
def joinLines (kind : BlockKind) (first further : List Char) (blankBefore blankAfter : Bool) :
    List Char :=
  if kind = .folded && first.head? = some '\n' && !blankBefore && !blankAfter then
    if further.isEmpty then [' '] else further
  else first ++ further

/-- The break at the front of a text, none at its end. -/
def takeLineEnd (place : Place) (text : List Char) : List Char × Place × List Char :=
  match takeBreak? text with
  | some (stands, bytes, rest) => (stands, place.down bytes, rest)
  | none => ([], place, text)

/-- The lines of a block scalar of a known depth. `first` and `further` are the break of the line
before and the empty lines after it. -/
def readLines (kind : BlockKind) (chomp : Chomp) (depth : Nat) :
    Nat → Place → List Char → List Char → Bool → List Char → Option Lexeme
  | 0, _, _, _, _, _ => none
  | fuel + 1, place, first, further, blankBefore, text =>
    if place.column = depth ∧ text ≠ [] then
      let blankAfter := text.head?.any isBlank
      let line := text.takeWhile fun c => !isBreak c
      let rest := text.dropWhile fun c => !isBreak c
      let (stands, after, rest) := takeLineEnd (place.past line) rest
      match readEmptyLines (some depth) after 0 rest with
      | none => none
      | some (breaks, _, next, rest) =>
        (readLines kind chomp depth fuel next stands breaks blankAfter rest).map
          (Lexeme.cons (joinLines kind first further blankBefore blankAfter ++ line))
    else
      let last := match chomp with
        | .strip => []
        | .clip => first
        | .keep => first ++ further
      some ⟨last, place, text⟩

/-- A comment, if one comes next, up to the end of the line. -/
def skipComment (text : List Char) : List Char :=
  match text with
  | '#' :: _ => text.dropWhile fun c => !isBreak c
  | _ => text

/-- A block scalar after its indicator. `parent` is the depth of what holds it, if anything does. -/
def readBlock (kind : BlockKind) (parent : Option Nat) (place : Place) (text : List Char) :
    Option Lexeme := do
  let (header, marks) ← readHeader? text
  let rest := skipComment ((text.drop marks).dropWhile isBlank)
  if atLineEnd rest then
    let place := place.past (text.take (text.length - rest.length))
    let (_, place, rest) := takeLineEnd place rest
    let known := header.depth.map fun d => parent.getD 0 + d
    let (breaks, widest, place, rest) ← readEmptyLines known place 0 rest
    let depth := known.getD (max widest (max (parent.elim 0 (· + 1)) 1))
    readLines kind header.chomp depth (rest.length + 1) place [] breaks false rest
  else none

end CallIndex.Yaml
