import CallIndex.Batch.Basic
import CallIndex.Json.Codec

/-!
# Batches in JSON

A parser writes its field names in one of two cases. Lists and texts that may be empty can be left
out, and so can line numbers.

* `Batch.parse`: one batch, or a list of batches. The whole text is read before a shape is tried, so
  a broken text is reported as broken, and a value of neither shape without a place.
-/

namespace CallIndex

open Json

/-- A field of a batch: its name, its second name, and its value when it is left out. -/
def batchField (name alternate : String) (absent : Option Value := none) : Label :=
  { name, alternate := some alternate, absent, cut := absent }

/-- A line number is left out when there is none. -/
def lineMember (name : String) : Option UInt32 → List (String × Value)
  | none => []
  | some n => [(name, encode n)]

instance : Codec MethodInput where
  encode m :=
    .object ([("signature", .string m.signature), ("body", .string m.body)] ++
      lineMember "start_line" m.startLine ++ lineMember "end_line" m.endLine)
  shape := .record "MethodInput" [
    (batchField "signature" "Signature", .string),
    (batchField "body" "Body" (some (.string "")), .string),
    (batchField "start_line" "StartLine" (some .null), lineShape),
    (batchField "end_line" "EndLine" (some .null), lineShape)]
  decode?
    | .object [("signature", .string signature), ("body", .string body),
        ("start_line", startLine), ("end_line", endLine)] => do
      some ⟨signature, body, ← decodeLine? startLine, ← decodeLine? endLine⟩
    | _ => none

instance : Codec CallInput where
  encode c := .object [("caller", .string c.caller), ("callee", .string c.callee)]
  shape := .record "CallInput" [
    (batchField "caller" "Caller", .string),
    (batchField "callee" "Callee", .string)]
  decode?
    | .object [("caller", .string caller), ("callee", .string callee)] => some ⟨caller, callee⟩
    | _ => none

/-- A text in a list. -/
def decodeText? : Value → Option String
  | .string s => some s
  | _ => none

instance : Codec Batch where
  encode b :=
    .object [
      ("project", .string b.project),
      ("document", .string b.document),
      ("classes", encode b.classes),
      ("methods", encode b.methods),
      ("calls", encode b.calls)]
  shape := .record "ProjectBatch" [
    (batchField "project" "Project", .string),
    (batchField "document" "Document", .string),
    (batchField "classes" "Classes" (some (.array [])), .list .string),
    (batchField "methods" "Methods" (some (.array [])), .list (Codec.shape MethodInput)),
    (batchField "calls" "Calls" (some (.array [])), .list (Codec.shape CallInput))]
  decode?
    | .object [("project", .string project), ("document", .string document),
        ("classes", .array classes), ("methods", methods), ("calls", calls)] => do
      some ⟨project, document, ← classes.mapM decodeText?, ← decodeList? methods,
        ← decodeList? calls⟩
    | _ => none

namespace Batch

/-- A value as one batch. -/
def ofValue? (v : Value) : Option Batch :=
  ((Codec.shape Batch).fit? v).bind decode?

/-- A value as a list of batches. -/
def listOfValue? : Value → Option (List Batch)
  | .array items => items.mapM ofValue?
  | _ => none

/-- A value as a list of batches, or else as one batch. -/
def allOfValue? (v : Value) : Option (List Batch) :=
  listOfValue? v <|> (ofValue? v).map fun b => [b]

/-- The batches of a text. -/
def parseChars (text : List Char) : Except Fault (List Batch) := do
  let (v, rest) ← readValue maxDepth text
  match allOfValue? v with
  | none => faultHere (.noShape "OneOrMany") rest
  | some batches =>
    endDocument rest
    .ok batches

/-- The batches of a text, or why there are none. -/
def parse (text : String) : Except Error (List Batch) :=
  match parseChars text.toList with
  | .ok batches => .ok batches
  | .error f => .error (.json (f.describe text.toList))

end Batch

end CallIndex
