import CallIndex.Yaml.Lexeme

/-!
# Tokens of YAML

A text is cut into tokens from left to right. The scanner keeps the indentation of the open block
collections and, for each open pair of brackets, the place where a key without a mark may have
begun: a colon that comes soon enough on the same line makes it a key.

* `Yaml.Token`: the tokens. The start and the end of a block collection are tokens of their own.
* `Yaml.Scanner`: the state of the scan.
* `Yaml.Scanner.step`: find the next token and add it.
* `Yaml.scan`: the tokens of a whole text, or none if it cannot be cut.
-/

namespace CallIndex.Yaml

/-- How a scalar is written. -/
inductive Style where
  | plain
  | quoted
  | literal
  | folded
  deriving DecidableEq, Repr

/-- The tokens. A tag is bytes, since its escapes may write bytes that are no text. -/
inductive Token where
  | versionDirective (major minor : Nat)
  | tagDirective (handle : String) (start : List UInt8)
  | documentStart
  | documentEnd
  | blockSequenceStart
  | blockMappingStart
  | blockEnd
  | flowSequenceStart
  | flowSequenceEnd
  | flowMappingStart
  | flowMappingEnd
  | blockEntry
  | flowEntry
  | key
  | value
  | alias (name : String)
  | anchor (name : String)
  | tag (handle : String) (suffix : List UInt8)
  | scalar (style : Style) (text : String)
  deriving DecidableEq, Repr

/-- Where a key without a mark may have begun: before which token, and whether the text is wrong if
it is no key. -/
structure KeyPlace where
  token : Nat
  place : Place
  required : Bool
  deriving DecidableEq, Repr

/-- The state of the scan. -/
structure Scanner where
  rest : List Char
  place : Place := .start
  /-- The tokens found, newest first. -/
  tokens : List Token := []
  /-- The columns of the open block collections, innermost first. -/
  indents : List Nat := []
  /-- The possible key of the text outside all brackets, last, and inside each open pair. -/
  keys : List (Option KeyPlace) := [none]
  /-- A key may begin here. -/
  keyAllowed : Bool := true
  deriving DecidableEq, Repr

namespace Scanner

/-- Inside brackets, indentation has no meaning. -/
def inFlow (s : Scanner) : Bool := 1 < s.keys.length

/-- The column of the innermost block collection. -/
def indent? (s : Scanner) : Option Nat := s.indents.head?

/-- The least column of what belongs to the innermost block collection. -/
def innerColumn (s : Scanner) : Nat := s.indent?.elim 0 (· + 1)

/-- Add a token. -/
def emit (s : Scanner) (t : Token) : Scanner := { s with tokens := t :: s.tokens }

/-- Add a token before the one with a number; the first token has number 0. -/
def emitBefore (s : Scanner) (number : Nat) (t : Token) : Scanner :=
  { s with tokens := s.tokens.insertIdx (s.tokens.length - number) t }

/-- Pass over characters of the same line, of one byte each. -/
def advance (s : Scanner) (count : Nat) : Scanner :=
  { s with rest := s.rest.drop count, place := s.place.right count }

/-- Go on after a lexeme. -/
def after (s : Scanner) (l : Lexeme) : Scanner := { s with rest := l.rest, place := l.place }

/-- Pass over blanks and breaks. Tabs count as blanks where no key can begin. A byte mark may stand
at the front of a line, and counts as a column of it. After a break outside brackets a key may
begin. -/
def toNextToken (inFlow keyAllowed : Bool) (place : Place) :
    List Char → Bool × Place × List Char
  | [] => (keyAllowed, place, [])
  | '\r' :: '\n' :: rest => toNextToken inFlow (keyAllowed || !inFlow) (place.down 2) rest
  | c :: rest =>
    if c = ' ' || (c = '\t' && (inFlow || !keyAllowed)) || (isByteMark c && place.column = 0) then
      toNextToken inFlow keyAllowed (place.next c) rest
    else if isBreak c then
      toNextToken inFlow (keyAllowed || !inFlow) (place.down c.utf8Size) rest
    else (keyAllowed, place, c :: rest)

/-- Pass over blanks, breaks and comments. Each round passes one comment. -/
def skipGaps : Nat → Scanner → Scanner
  | 0, s => s
  | fuel + 1, s =>
    let (keyAllowed, place, rest) := toNextToken s.inFlow s.keyAllowed s.place s.rest
    let s := { s with keyAllowed, place, rest }
    match rest with
    | '#' :: _ =>
      let left := skipComment rest
      let comment := rest.take (rest.length - left.length)
      skipGaps fuel { s with place := place.past comment, rest := left }
    | _ => s

/-- A possible key is over when its line has ended or it has grown longer than 1024 bytes. -/
def isStale (place : Place) (k : KeyPlace) : Bool :=
  k.place.line < place.line || k.place.index + 1024 < place.index

/-- Give up the possible keys that are over. One that had to be a key makes the text wrong. -/
def dropStaleKeys (s : Scanner) : Option Scanner :=
  if s.keys.any fun k => k.any fun k => isStale s.place k && k.required then none
  else some { s with keys := s.keys.map fun k => k.filter fun k => !isStale s.place k }

/-- Give up the possible key of the innermost level. -/
def dropKey (s : Scanner) : Option Scanner :=
  match s.keys with
  | some k :: keys => if k.required then none else some { s with keys := none :: keys }
  | _ => some s

/-- A key may begin here. It must be one at the column of the innermost block collection. -/
def saveKey (s : Scanner) : Option Scanner :=
  if s.keyAllowed then do
    let s ← s.dropKey
    let required := !s.inFlow && s.indent? = some s.place.column
    some { s with keys := some ⟨s.tokens.length, s.place, required⟩ :: s.keys.tail }
  else some s

/-- Close the block collections that stand further right than a column. -/
def closeBlocks (column : Option Nat) : List Nat → List Token → List Nat × List Token
  | [], tokens => ([], tokens)
  | i :: indents, tokens =>
    if column.any fun c => i ≤ c then (i :: indents, tokens)
    else closeBlocks column indents (.blockEnd :: tokens)

/-- Close the block collections that stand further right than a column, all of them without one.
Inside brackets none is closed. -/
def unroll (s : Scanner) (column : Option Nat) : Scanner :=
  if s.inFlow then s
  else
    let (indents, tokens) := closeBlocks column s.indents s.tokens
    { s with indents, tokens }

/-- Open a block collection at a column, before the token with a number, if it is further right than
the innermost one. -/
def roll (s : Scanner) (column number : Nat) (t : Token) : Scanner :=
  if s.inFlow || s.indent?.any fun i => column ≤ i then s
  else { s with indents := column :: s.indents }.emitBefore number t

/-! ### Single tokens -/

/-- The end of the text. -/
def finish (s : Scanner) : Option Scanner := (s.unroll none).dropKey

/-- Close all blocks; no key can begin. -/
def leaveBlocks (s : Scanner) : Option Scanner :=
  (s.unroll none).dropKey.map fun s => { s with keyAllowed := false }

/-- The marks of a document. -/
def documentMark (s : Scanner) (t : Token) : Option Scanner := do
  let s ← s.leaveBlocks
  some ((s.emit t).advance 3)

/-- An opening bracket. -/
def openFlow (s : Scanner) (t : Token) : Option Scanner := do
  let s ← s.saveKey
  some (({ s with keys := none :: s.keys, keyAllowed := true }.emit t).advance 1)

/-- A closing bracket. -/
def closeFlow (s : Scanner) (t : Token) : Option Scanner := do
  let s ← s.dropKey
  let keys := if s.inFlow then s.keys.tail else s.keys
  some (({ s with keys, keyAllowed := false }.emit t).advance 1)

/-- A comma. -/
def flowEntry (s : Scanner) : Option Scanner := do
  let s ← s.dropKey
  some (({ s with keyAllowed := true }.emit .flowEntry).advance 1)

/-- A hyphen. Outside brackets it opens a list at its column. -/
def blockEntry (s : Scanner) : Option Scanner := do
  if !s.inFlow && !s.keyAllowed then none
  else
    let s := s.roll s.place.column s.tokens.length .blockSequenceStart
    let s ← s.dropKey
    some (({ s with keyAllowed := true }.emit .blockEntry).advance 1)

/-- A question mark. Outside brackets it opens a mapping at its column. -/
def keyMark (s : Scanner) : Option Scanner := do
  if !s.inFlow && !s.keyAllowed then none
  else
    let s := s.roll s.place.column s.tokens.length .blockMappingStart
    let s ← s.dropKey
    some (({ s with keyAllowed := !s.inFlow }.emit .key).advance 1)

/-- A colon. What began at the possible key is a key now. Without one the key is empty. -/
def valueMark (s : Scanner) : Option Scanner :=
  match s.keys with
  | some k :: keys =>
    let s := { s with keys := none :: keys }.emitBefore k.token .key
    let s := s.roll k.place.column k.token .blockMappingStart
    some (({ s with keyAllowed := false }.emit .value).advance 1)
  | _ =>
    if !s.inFlow && !s.keyAllowed then none
    else
      let s := s.roll s.place.column s.tokens.length .blockMappingStart
      some (({ s with keyAllowed := !s.inFlow }.emit .value).advance 1)

/-- The characters of a name at the front of a text. -/
def nameAt (text : List Char) : List Char := text.takeWhile isNameChar

/-- What may follow the name of an anchor. -/
def endsAnchor (rest : List Char) : Bool :=
  atGap rest || rest.head?.any fun c =>
    c == '?' || c == ':' || c == ',' || c == ']' || c == '}' || c == '%' || c == '@' ||
      c.toNat == 0x60

/-- An anchor or an alias, after its mark. -/
def named (s : Scanner) (t : String → Token) : Option Scanner := do
  let s ← s.saveKey
  let name := nameAt (s.rest.drop 1)
  let s := { s with keyAllowed := false }.advance (name.length + 1)
  if name.isEmpty || !endsAnchor s.rest then none else some (s.emit (t (String.ofList name)))

/-- The bytes of an escape by number in a tag. -/
def byteEscapes : List Char → List UInt8
  | '%' :: a :: b :: rest =>
    match hexNumber? [a, b] with
    | some n => UInt8.ofNat n :: byteEscapes rest
    | none => []
  | _ => []

/-- How many bytes a character has in UTF-8, by its first one. -/
def byteWidth? (b : UInt8) : Option Nat :=
  if b < 0x80 then some 1
  else if 0xC0 ≤ b && b < 0xE0 then some 2
  else if 0xE0 ≤ b && b < 0xF0 then some 3
  else if 0xF0 ≤ b && b < 0xF8 then some 4
  else none

/-- A byte that goes on with a character. -/
def isTrailingByte (b : UInt8) : Bool := 0x80 ≤ b && b < 0xC0

/-- The bytes that the escapes at the front of a text write for one character. Their form is that of
UTF-8; what they stand for is not looked at. -/
def escapedBytes? (text : List Char) : Option (List UInt8) := do
  let bytes := byteEscapes text
  let width ← byteWidth? (← bytes.head?)
  let bytes := bytes.take width
  if bytes.length = width && bytes.tail.all isTrailingByte then some bytes else none

/-- The marks that may stand in a tag besides the characters of names. -/
def isTagMark (full : Bool) (c : Char) : Bool :=
  c == ';' || c == '/' || c == '?' || c == ':' || c == '@' || c == '&' || c == '=' || c == '+' ||
    c == '$' || c == '.' || c == '!' || c == '~' || c == '*' || c == '\'' || c == '(' || c == ')' ||
    (full && (c == ',' || c == '[' || c == ']'))

/-- The bytes of a tag and the text after them. `full` allows the marks of flow collections. -/
def tagBytes (full : Bool) : Nat → List Char → Option (List UInt8 × List Char)
  | 0, text => some ([], text)
  | fuel + 1, text =>
    match text with
    | [] => some ([], [])
    | c :: rest =>
      if c = '%' then do
        let bytes ← escapedBytes? text
        let (more, rest) ← tagBytes full fuel (text.drop (3 * bytes.length))
        some (bytes ++ more, rest)
      else if isNameChar c || isTagMark full c then
        (tagBytes full fuel rest).map fun (more, rest) => (UInt8.ofNat c.toNat :: more, rest)
      else some ([], text)

/-- The part of a tag that counts: a zero byte ends it. -/
def upToZero (bytes : List UInt8) : List UInt8 := bytes.takeWhile (· ≠ 0)

/-- A handle: one or two exclamation marks, or a name between two. The text before the second mark,
if there is no second mark, is not a handle but the front of a tag. -/
def handleAt (text : List Char) : List Char :=
  match text with
  | '!' :: rest =>
    let name := nameAt rest
    match rest.drop name.length with
    | '!' :: _ => '!' :: name ++ ['!']
    | _ => '!' :: name
  | _ => []

/-- A tag: its handle, its suffix, and the text after it. A tag without suffix is a single mark. -/
def tagAt (text : List Char) : Option (String × List UInt8 × List Char) :=
  match text with
  | '!' :: '<' :: rest => do
    let (suffix, rest) ← tagBytes true rest.length rest
    match suffix, rest with
    | _ :: _, '>' :: rest => some ("", upToZero suffix, rest)
    | _, _ => none
  | _ => do
    let handle := handleAt text
    let rest := text.drop handle.length
    let (suffix, rest) ← tagBytes false rest.length rest
    if 1 < handle.length && handle.getLast? = some '!' then
      if suffix.isEmpty then none else some (String.ofList handle, upToZero suffix, rest)
    else
      match upToZero (asciiBytes (handle.drop 1) ++ suffix) with
      | [] => some ("", asciiBytes ['!'], rest)
      | suffix => some ("!", suffix, rest)

/-- A tag. -/
def tag (s : Scanner) : Option Scanner := do
  let s ← s.saveKey
  let (handle, suffix, rest) ← tagAt s.rest
  let s := { s with keyAllowed := false }.advance (s.rest.length - rest.length)
  if atGap rest || (s.inFlow && rest.head? = some ',') then
    some (s.emit (.tag handle suffix))
  else none

/-- A scalar of several lines. -/
def block (s : Scanner) (kind : BlockKind) (style : Style) : Option Scanner := do
  let s ← s.dropKey
  let l ← readBlock kind s.indent? (s.place.right 1) (s.rest.drop 1)
  some (({ s with keyAllowed := true }.after l).emit (.scalar style (String.ofList l.text)))

/-- A quoted scalar. -/
def quotedScalar (s : Scanner) (read : Place → Gap → List Char → Option Lexeme) :
    Option Scanner := do
  let s ← s.saveKey
  let l ← read (s.place.right 1) .empty (s.rest.drop 1)
  some (({ s with keyAllowed := false }.after l).emit (.scalar .quoted (String.ofList l.text)))

/-- A plain scalar. A key may begin after it if it ends with a line. -/
def plain (s : Scanner) : Option Scanner := do
  let s ← s.saveKey
  let (l, gap) ← readPlain s.inFlow s.innerColumn s.place .empty s.rest
  some (({ s with keyAllowed := gap.broken }.after l).emit (.scalar .plain (String.ofList l.text)))

/-- The number that some digits write; ten digits are too many. -/
def versionNumber? (text : List Char) : Option (Nat × List Char) :=
  let digits := text.takeWhile fun c => c.isDigit
  if digits.isEmpty || 9 < digits.length then none
  else some (digits.foldl (fun n c => n * 10 + (c.toNat - '0'.toNat)) 0, text.drop digits.length)

/-- The values of a directive, after its name. -/
def directiveValue? (name text : List Char) : Option (Token × List Char) :=
  let text := text.dropWhile isBlank
  if name = ['Y', 'A', 'M', 'L'] then do
    let (major, rest) ← versionNumber? text
    match rest with
    | '.' :: rest =>
      let (minor, rest) ← versionNumber? rest
      some (.versionDirective major minor, rest)
    | _ => none
  else if name = ['T', 'A', 'G'] then do
    let handle := handleAt text
    let rest := text.drop handle.length
    if handle = ['!'] || (1 < handle.length && handle.getLast? = some '!') then
      match rest with
      | c :: _ =>
        if isBlank c then
          let rest := rest.dropWhile isBlank
          let (start, rest) ← tagBytes true rest.length rest
          if start.isEmpty || !atGap rest then none
          else some (.tagDirective (String.ofList handle) (upToZero start), rest)
        else none
      | [] => none
    else none
  else none

/-- A directive. It takes its line, and a comment may follow it. -/
def directive (s : Scanner) : Option Scanner := do
  let s ← s.leaveBlocks
  let name := nameAt (s.rest.drop 1)
  let rest := s.rest.drop (name.length + 1)
  if name.isEmpty || !atGap rest then none
  else
    let (t, rest) ← directiveValue? name rest
    let rest := skipComment (rest.dropWhile isBlank)
    if atLineEnd rest then
      let (_, place, rest') := takeLineEnd (s.place.right (s.rest.length - rest.length)) rest
      some ({ s with place, rest := rest' }.emit t)
    else none

/-- The marks that a plain scalar cannot begin with. -/
def isIndicator (c : Char) : Bool :=
  c == '-' || c == '?' || c == ':' || c == ',' || c == '[' || c == ']' || c == '{' || c == '}' ||
    c == '#' || c == '&' || c == '*' || c == '!' || c == '|' || c == '>' || c == '\'' || c == '"' ||
    c == '%' || c == '@' || c.toNat == 0x60

/-- Whether a plain scalar can begin with a character, by what follows it. -/
def beginsPlain (inFlow : Bool) (c : Char) (rest : List Char) : Bool :=
  !(isBlank c || isBreak c || isIndicator c) ||
    (c = '-' && !(rest.head?.any isBlank)) ||
    (!inFlow && (c = '?' || c = ':') && !atGap rest)

/-- The next token, by its first character. -/
def fetch (s : Scanner) (c : Char) (rest : List Char) : Option Scanner :=
  if s.place.column = 0 && c = '%' then s.directive
  else if s.place.column = 0 && c = '-' && atDocumentMark s.rest then s.documentMark .documentStart
  else if s.place.column = 0 && c = '.' && atDocumentMark s.rest then s.documentMark .documentEnd
  else if c = '[' then s.openFlow .flowSequenceStart
  else if c = '{' then s.openFlow .flowMappingStart
  else if c = ']' then s.closeFlow .flowSequenceEnd
  else if c = '}' then s.closeFlow .flowMappingEnd
  else if c = ',' then s.flowEntry
  else if c = '-' && atGap rest then s.blockEntry
  else if c = '?' && (s.inFlow || atGap rest) then s.keyMark
  else if c = ':' && (s.inFlow || atGap rest) then s.valueMark
  else if c = '*' then s.named .alias
  else if c = '&' then s.named .anchor
  else if c = '!' then s.tag
  else if c = '|' && !s.inFlow then s.block .literal .literal
  else if c = '>' && !s.inFlow then s.block .folded .folded
  else if c = '\'' then s.quotedScalar readSingle
  else if c = '"' then s.quotedScalar readDouble
  else if beginsPlain s.inFlow c rest then s.plain
  else none

/-- Go to the next token. -/
def prepare (s : Scanner) : Option Scanner := do
  let s ← (skipGaps (s.rest.length + 1) s).dropStaleKeys
  some (s.unroll (some s.place.column))

/-- Add the next token, or finish at the end of the text. -/
def step (s : Scanner) : Option (Bool × Scanner) := do
  let s ← s.prepare
  match s.rest with
  | [] => s.finish.map fun s => (true, s)
  | c :: rest => (s.fetch c rest).map fun s => (false, s)

/-- All tokens. Each one takes a character at least, so the length of the text bounds their
number. -/
def run : Nat → Scanner → Option Scanner
  | 0, _ => none
  | fuel + 1, s =>
    match s.step with
    | none => none
    | some (true, s) => some s
    | some (false, s) => run fuel s

end Scanner

/-- The tokens of a text. -/
def scan (text : List Char) : Option (List Token) :=
  if text.all isAllowed then
    (Scanner.run (text.length + 1) { rest := text }).map fun s => s.tokens.reverse
  else none

end CallIndex.Yaml
