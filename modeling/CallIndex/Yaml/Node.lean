import CallIndex.Yaml.Token

/-!
# Nodes of YAML

* `Yaml.Node`: scalars, lists, mappings and references to named nodes.
* `Yaml.Build`: what is kept while tokens are made into nodes: the tokens that are left, the names
  of anchors, and the tag handles of the document.
* `Yaml.Document`: a document's node with its anchored nodes.
* `Yaml.Document.ofTokens?`: the only document of a stream. An empty stream is an empty document.
-/

namespace CallIndex.Yaml

/-- A node. An anchor has a number; a reference holds the number that its name had when it was
read. -/
inductive Node where
  | scalar (tag : Option (List UInt8)) (style : Style) (text : String)
  | sequence (items : List Node)
  | mapping (entries : List (Node × Node))
  | reference (anchor : Nat)
  | anchored (anchor : Nat) (node : Node)
  deriving Repr

/-- The empty node, where a value is left out. -/
def Node.empty : Node := .scalar none .plain ""

/-- What is kept while tokens are made into nodes. -/
structure Build where
  tokens : List Token
  /-- The number of each name. The number of a new anchor is the count of the names before it. -/
  anchors : List (String × Nat) := []
  handles : List (String × List UInt8) := []

/-- A step that makes something out of tokens. -/
abbrev Builder (α : Type) := Build → Option (α × Build)

namespace Build

/-- Pass over a token. -/
def next (b : Build) : Build := { b with tokens := b.tokens.tail }

/-- Give a name a number of its own. -/
def declare (b : Build) (name : String) : Nat × Build :=
  let number := b.anchors.length
  (number, { b with anchors := (name, number) :: b.anchors.filter fun a => a.1 ≠ name })

/-- A whole tag. A handle stands for what a directive gives it, or for a standard text. -/
def tag? (b : Build) (handle : String) (suffix : List UInt8) : Option (List UInt8) :=
  if handle = "" then some suffix
  else
    match b.handles.lookup handle with
    | some start => some (start ++ suffix)
    | none =>
      if handle = "!" then some (asciiBytes ['!'] ++ suffix)
      else if handle = "!!" then some (asciiBytes "tag:yaml.org,2002:".toList ++ suffix)
      else none

end Build

/-- The anchor and the tag in front of a node, in either order. -/
structure Properties where
  anchor : Option String := none
  tag : Option (List UInt8) := none

/-- Read the anchor and the tag of a node. -/
def readProperties (b : Build) : Option (Properties × Build) :=
  match b.tokens with
  | .anchor name :: .tag handle suffix :: rest =>
    (b.tag? handle suffix).map fun tag => (⟨some name, some tag⟩, { b with tokens := rest })
  | .tag handle suffix :: .anchor name :: rest =>
    (b.tag? handle suffix).map fun tag => (⟨some name, some tag⟩, { b with tokens := rest })
  | .anchor name :: rest => some (⟨some name, none⟩, { b with tokens := rest })
  | .tag handle suffix :: rest =>
    (b.tag? handle suffix).map fun tag => (⟨none, some tag⟩, { b with tokens := rest })
  | _ => some ({}, b)

/-- Number the anchor of a node, if it has one, before its parts are made. -/
def withAnchor (p : Properties) (make : Builder Node) : Builder Node := fun b =>
  match p.anchor with
  | none => make b
  | some name =>
    let (number, b) := b.declare name
    (make b).map fun (node, b) => (.anchored number node, b)

/-- A value is left out before one of these tokens. -/
def isBlockEntryEnd : Token → Bool
  | .blockEntry | .blockEnd => true
  | _ => false

def isIndentlessEnd : Token → Bool
  | .blockEntry | .key | .value | .blockEnd => true
  | _ => false

def isMappingEnd : Token → Bool
  | .key | .value | .blockEnd => true
  | _ => false

def isFlowKeyEnd : Token → Bool
  | .value | .flowEntry | .flowMappingEnd => true
  | _ => false

def isFlowValueEnd : Token → Bool
  | .flowEntry | .flowMappingEnd => true
  | _ => false

def isPairKeyEnd : Token → Bool
  | .value | .flowEntry | .flowSequenceEnd => true
  | _ => false

def isPairValueEnd : Token → Bool
  | .flowEntry | .flowSequenceEnd => true
  | _ => false

/-- The empty node before one of some tokens, or else a node. There is no node at the end of the
tokens. -/
def orEmpty (ends : Token → Bool) (make : Builder Node) : Builder Node := fun b =>
  match b.tokens with
  | [] => none
  | t :: _ => if ends t then some (.empty, b) else make b

mutual

/-- A node. `inBlock` allows block collections, `indentless` a list that is not indented below its
key. -/
def buildNode : Nat → Bool → Bool → Builder Node
  | 0, _, _, _ => none
  | fuel + 1, inBlock, indentless, b =>
    match b.tokens with
    | .alias name :: _ => (b.anchors.lookup name).map fun number => (.reference number, b.next)
    | _ => do
      let (p, b) ← readProperties b
      withAnchor p (buildContent fuel inBlock indentless p) b

/-- What stands after the anchor and the tag of a node. -/
def buildContent : Nat → Bool → Bool → Properties → Builder Node
  | 0, _, _, _, _ => none
  | fuel + 1, inBlock, indentless, p, b =>
    match b.tokens with
    | .scalar style text :: _ => some (.scalar p.tag style text, b.next)
    | .flowSequenceStart :: _ =>
      (buildFlowSequence fuel true b.next).map fun (items, b) => (.sequence items, b)
    | .flowMappingStart :: _ =>
      (buildFlowMapping fuel true b.next).map fun (entries, b) => (.mapping entries, b)
    | .blockEntry :: _ =>
      if indentless then
        (buildIndentless fuel b).map fun (items, b) => (.sequence items, b)
      else emptyContent p b
    | .blockSequenceStart :: _ =>
      if inBlock then
        (buildBlockSequence fuel b.next).map fun (items, b) => (.sequence items, b)
      else emptyContent p b
    | .blockMappingStart :: _ =>
      if inBlock then
        (buildBlockMapping fuel b.next).map fun (entries, b) => (.mapping entries, b)
      else emptyContent p b
    | _ => emptyContent p b

/-- An anchor or a tag alone stands for an empty node. -/
def emptyContent (p : Properties) : Builder Node := fun b =>
  if p.anchor.isSome || p.tag.isSome then some (.scalar p.tag .plain "", b) else none

/-- The items of a list in block form. -/
def buildBlockSequence : Nat → Builder (List Node)
  | 0, _ => none
  | fuel + 1, b =>
    match b.tokens with
    | .blockEntry :: _ => do
      let (item, b) ← orEmpty isBlockEntryEnd (buildNode fuel true false) b.next
      let (items, b) ← buildBlockSequence fuel b
      some (item :: items, b)
    | .blockEnd :: _ => some ([], b.next)
    | _ => none

/-- The items of a list that is not indented below its key. -/
def buildIndentless : Nat → Builder (List Node)
  | 0, _ => none
  | fuel + 1, b =>
    match b.tokens with
    | .blockEntry :: _ => do
      let (item, b) ← orEmpty isIndentlessEnd (buildNode fuel true false) b.next
      let (items, b) ← buildIndentless fuel b
      some (item :: items, b)
    | _ => some ([], b)

/-- The entries of a mapping in block form. -/
def buildBlockMapping : Nat → Builder (List (Node × Node))
  | 0, _ => none
  | fuel + 1, b =>
    match b.tokens with
    | .key :: _ => do
      let (k, b) ← orEmpty isMappingEnd (buildNode fuel true true) b.next
      let (v, b) ← buildBlockValue fuel b
      let (entries, b) ← buildBlockMapping fuel b
      some ((k, v) :: entries, b)
    | .blockEnd :: _ => some ([], b.next)
    | _ => none

/-- The value of an entry in block form. -/
def buildBlockValue : Nat → Builder Node
  | 0, _ => none
  | fuel + 1, b =>
    match b.tokens with
    | .value :: _ => orEmpty isMappingEnd (buildNode fuel true true) b.next
    | _ => some (.empty, b)

/-- The items of a list in brackets. An item may be a pair of a key and a value. -/
def buildFlowSequence : Nat → Bool → Builder (List Node)
  | 0, _, _ => none
  | fuel + 1, first, b =>
    match b.tokens with
    | .flowSequenceEnd :: _ => some ([], b.next)
    | .flowEntry :: _ => if first then none else buildFlowItem fuel b.next
    | _ => if first then buildFlowItem fuel b else none

/-- An item of a list in brackets, and those after it. A comma may stand before the closing
bracket. -/
def buildFlowItem : Nat → Builder (List Node)
  | 0, _ => none
  | fuel + 1, b =>
    match b.tokens with
    | .flowSequenceEnd :: _ => some ([], b.next)
    | .key :: _ => do
      let (pair, b) ← buildPair fuel b.next
      let (items, b) ← buildFlowSequence fuel false b
      some (pair :: items, b)
    | _ => do
      let (item, b) ← buildNode fuel false false b
      let (items, b) ← buildFlowSequence fuel false b
      some (item :: items, b)

/-- A pair of a key and a value as an item of a list. The token after an empty key is passed
over. -/
def buildPair : Nat → Builder Node
  | 0, _ => none
  | fuel + 1, b =>
    match b.tokens with
    | [] => none
    | t :: _ => do
      let (k, b) ← if isPairKeyEnd t then some (.empty, b.next) else buildNode fuel false false b
      match b.tokens with
      | .value :: _ => do
        let (v, b) ← orEmpty isPairValueEnd (buildNode fuel false false) b.next
        some (.mapping [(k, v)], b)
      | _ => some (.mapping [(k, .empty)], b)

/-- The entries of a mapping in braces. -/
def buildFlowMapping : Nat → Bool → Builder (List (Node × Node))
  | 0, _, _ => none
  | fuel + 1, first, b =>
    match b.tokens with
    | .flowMappingEnd :: _ => some ([], b.next)
    | .flowEntry :: _ => if first then none else buildFlowEntry fuel b.next
    | _ => if first then buildFlowEntry fuel b else none

/-- An entry of a mapping in braces, and those after it. A comma may stand before the closing
brace. -/
def buildFlowEntry : Nat → Builder (List (Node × Node))
  | 0, _ => none
  | fuel + 1, b =>
    match b.tokens with
    | .flowMappingEnd :: _ => some ([], b.next)
    | .key :: _ => do
      let (k, b) ← orEmpty isFlowKeyEnd (buildNode fuel false false) b.next
      let (v, b) ← buildFlowValue fuel b
      let (entries, b) ← buildFlowMapping fuel false b
      some ((k, v) :: entries, b)
    | _ => do
      let (k, b) ← buildNode fuel false false b
      let (entries, b) ← buildFlowMapping fuel false b
      some ((k, .empty) :: entries, b)

/-- The value of an entry in braces. -/
def buildFlowValue : Nat → Builder Node
  | 0, _ => none
  | fuel + 1, b =>
    match b.tokens with
    | .value :: _ => orEmpty isFlowValueEnd (buildNode fuel false false) b.next
    | _ => some (.empty, b)

end

/-- A document's node, with the anchored nodes by number. -/
structure Document where
  root : Node
  anchored : List (Nat × Node)

mutual

/-- The anchored nodes in a node, in the order of their anchors. -/
def Node.anchors : Node → List (Nat × Node)
  | .anchored number node => (number, node) :: node.anchors
  | .sequence items => itemAnchors items
  | .mapping entries => entryAnchors entries
  | .scalar .. => []
  | .reference _ => []

def itemAnchors : List Node → List (Nat × Node)
  | [] => []
  | node :: rest => node.anchors ++ itemAnchors rest

def entryAnchors : List (Node × Node) → List (Nat × Node)
  | [] => []
  | (k, v) :: rest => k.anchors ++ v.anchors ++ entryAnchors rest

end

namespace Document

/-- The document without content. -/
def blank : Document := ⟨.empty, []⟩

/-- The node that a node stands for: an anchored one for itself, a reference for the last node with
its number. -/
def resolve (d : Document) : Node → Node
  | .anchored _ node => node
  | .reference number =>
    match d.anchored.reverse.lookup number with
    | some (.anchored _ node) => node
    | some node => node
    | none => .empty
  | node => node

/-- The directives in front of a document. One version may be given, 1.1 or 1.2, and each handle
once. -/
def readDirectives : Bool → List (String × List UInt8) → List Token →
    Option (List (String × List UInt8) × List Token)
  | seen, handles, .versionDirective major minor :: rest =>
    if seen || major ≠ 1 || (minor ≠ 1 && minor ≠ 2) then none else readDirectives true handles rest
  | seen, handles, .tagDirective handle start :: rest =>
    if (handles.lookup handle).isSome then none
    else readDirectives seen ((handle, start) :: handles) rest
  | _, handles, tokens => some (handles, tokens)

/-- Whether a document has no content before a token. -/
def isDocumentEnd : Token → Bool
  | .versionDirective .. | .tagDirective .. | .documentStart | .documentEnd => true
  | _ => false

/-- Only marks of a document's end may follow it. -/
def endsStream : List Token → Bool
  | [] => true
  | .documentEnd :: rest => endsStream rest
  | _ => false

/-- The content of a document. -/
def ofContent? (handles : List (String × List UInt8)) (tokens : List Token) : Option Document := do
  let (root, rest) ←
    match tokens with
    | [] => some (Node.empty, [])
    | t :: _ =>
      if isDocumentEnd t then some (Node.empty, tokens)
      else
        (buildNode (4 * tokens.length + 4) true false { tokens, handles }).map
          fun (root, b) => (root, b.tokens)
  if endsStream rest then some ⟨root, root.anchors⟩ else none

/-- The only document of a stream. A stream without tokens is an empty document; after directives
the mark of a document's start must follow. -/
def ofTokens? (tokens : List Token) : Option Document :=
  match tokens with
  | [] => some blank
  | .documentEnd :: _ => none
  | t :: _ =>
    if isDocumentEnd t then do
      let (handles, rest) ← readDirectives false [] tokens
      match rest with
      | .documentStart :: rest => ofContent? handles rest
      | _ => none
    else ofContent? [] tokens

/-- The only document of a text. -/
def parse? (text : List Char) : Option Document := (scan text).bind ofTokens?

end Document

end CallIndex.Yaml
