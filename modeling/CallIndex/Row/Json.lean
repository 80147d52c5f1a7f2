import CallIndex.Json.Codec
import CallIndex.Row

/-!
# Rows in JSON

Each row is a record with its fields in the order of its columns. Ids are whole numbers of 64 bits,
line numbers of 32 bits without a sign, and a missing line number is null.

* `UsedMethods`, `RelatedMethods`, `GraphData`: the answers that hold lists of rows.
-/

namespace CallIndex

open Json

instance : Codec RowId where
  toEncode := inferInstance
  shape := idShape
  decode?
    | .whole id => some id
    | _ => none

instance : Codec Project where
  encode r := .object [
    ("id", encode r.id),
    ("name", encode r.name)]
  shape := .record "Project" [
    (.required "id", idShape),
    (.required "name", .string)]
  decode?
    | .object [("id", .whole id), ("name", .string name)] => some ⟨id, name⟩
    | _ => none

instance : Codec Document where
  encode r := .object [
    ("id", encode r.id),
    ("project_id", encode r.projectId),
    ("path", encode r.path)]
  shape := .record "Document" [
    (.required "id", idShape),
    (.required "project_id", idShape),
    (.required "path", .string)]
  decode?
    | .object [("id", .whole id), ("project_id", .whole projectId), ("path", .string path)] =>
      some ⟨id, projectId, path⟩
    | _ => none

instance : Codec Class where
  encode r := .object [
    ("id", encode r.id),
    ("document_id", encode r.documentId),
    ("name", encode r.name)]
  shape := .record "Class" [
    (.required "id", idShape),
    (.required "document_id", idShape),
    (.required "name", .string)]
  decode?
    | .object [("id", .whole id), ("document_id", .whole documentId), ("name", .string name)] =>
      some ⟨id, documentId, name⟩
    | _ => none

instance : Codec Method where
  encode r := .object [
    ("id", encode r.id),
    ("class_id", encode r.classId),
    ("name", encode r.name),
    ("signature", encode r.signature),
    ("body", encode r.body),
    ("start_line", encode r.startLine),
    ("end_line", encode r.endLine)]
  shape := .record "Method" [
    (.required "id", idShape),
    (.required "class_id", idShape),
    (.required "name", .string),
    (.required "signature", .string),
    (.required "body", .string),
    ({ name := "start_line", absent := some .null }, lineShape),
    ({ name := "end_line", absent := some .null }, lineShape)]
  decode?
    | .object [("id", .whole id), ("class_id", .whole classId), ("name", .string name),
        ("signature", .string signature), ("body", .string body), ("start_line", startLine),
        ("end_line", endLine)] => do
      some ⟨id, classId, name, signature, body, ← decodeLine? startLine, ← decodeLine? endLine⟩
    | _ => none

instance : Codec MethodCall where
  encode r := .object [
    ("id", encode r.id),
    ("caller_id", encode r.callerId),
    ("callee_id", encode r.calleeId)]
  shape := .record "MethodCall" [
    (.required "id", idShape),
    (.required "caller_id", idShape),
    (.required "callee_id", idShape)]
  decode?
    | .object [("id", .whole id), ("caller_id", .whole callerId),
        ("callee_id", .whole calleeId)] => some ⟨id, callerId, calleeId⟩
    | _ => none

instance : Codec MethodRef where
  encode r := .object [
    ("method_id", encode r.methodId),
    ("method_signature", encode r.methodSignature),
    ("document_path", encode r.documentPath)]
  shape := .record "MethodRef" [
    (.required "method_id", idShape),
    (.required "method_signature", .string),
    (.required "document_path", .string)]
  decode?
    | .object [("method_id", .whole methodId), ("method_signature", .string methodSignature),
        ("document_path", .string documentPath)] => some ⟨methodId, methodSignature, documentPath⟩
    | _ => none

instance : Codec EdgeRef where
  encode r := .object [
    ("id", encode r.id),
    ("signature", encode r.signature)]
  shape := .record "EdgeRef" [
    (.required "id", idShape),
    (.required "signature", .string)]
  decode?
    | .object [("id", .whole id), ("signature", .string signature)] => some ⟨id, signature⟩
    | _ => none

instance : Codec GraphRow where
  encode r := .object [
    ("project_id", encode r.projectId),
    ("project_name", encode r.projectName),
    ("document_id", encode r.documentId),
    ("document_path", encode r.documentPath),
    ("class_id", encode r.classId),
    ("class_name", encode r.className),
    ("method_id", encode r.methodId),
    ("method_name", encode r.methodName),
    ("method_signature", encode r.methodSignature),
    ("method_body", encode r.methodBody),
    ("callees", encode r.callees),
    ("callers", encode r.callers)]
  shape := .record "GraphRow" [
    (.required "project_id", idShape),
    (.required "project_name", .string),
    (.required "document_id", idShape),
    (.required "document_path", .string),
    (.required "class_id", idShape),
    (.required "class_name", .string),
    (.required "method_id", idShape),
    (.required "method_name", .string),
    (.required "method_signature", .string),
    (.required "method_body", .string),
    (.required "callees", .list (Codec.shape EdgeRef)),
    (.required "callers", .list (Codec.shape EdgeRef))]
  decode?
    | .object [("project_id", .whole projectId), ("project_name", .string projectName),
        ("document_id", .whole documentId), ("document_path", .string documentPath),
        ("class_id", .whole classId), ("class_name", .string className),
        ("method_id", .whole methodId), ("method_name", .string methodName),
        ("method_signature", .string methodSignature), ("method_body", .string methodBody),
        ("callees", callees), ("callers", callers)] => do
      some ⟨projectId, projectName, documentId, documentPath, classId, className, methodId,
        methodName, methodSignature, methodBody, ← decodeList? callees, ← decodeList? callers⟩
    | _ => none

instance : Codec MethodSource where
  encode r := .object [
    ("method", encode r.method),
    ("method_id", encode r.methodId)]
  shape := .record "MethodSource" [
    (.required "method", .string),
    (.required "method_id", idShape)]
  decode?
    | .object [("method", .string method), ("method_id", .whole methodId)] =>
      some ⟨method, methodId⟩
    | _ => none

instance : Codec MethodDetail where
  encode r := .object [
    ("method_id", encode r.methodId),
    ("method_signature", encode r.methodSignature),
    ("method_body", encode r.methodBody)]
  shape := .record "MethodDetail" [
    (.required "method_id", idShape),
    (.required "method_signature", .string),
    (.required "method_body", .string)]
  decode?
    | .object [("method_id", .whole methodId), ("method_signature", .string methodSignature),
        ("method_body", .string methodBody)] => some ⟨methodId, methodSignature, methodBody⟩
    | _ => none

/-- The methods that a method calls. -/
structure UsedMethods where
  usedMethods : List MethodRef
  deriving DecidableEq, Repr

/-- The methods that call a method. -/
structure RelatedMethods where
  relatedMethods : List MethodRef
  deriving DecidableEq, Repr

/-- The whole graph. -/
structure GraphData where
  data : List GraphRow
  deriving DecidableEq, Repr

instance : Codec UsedMethods where
  encode r := .object [
    ("used_methods", encode r.usedMethods)]
  shape := .record "UsedMethods" [
    (.required "used_methods", .list (Codec.shape MethodRef))]
  decode?
    | .object [("used_methods", usedMethods)] => do
      some ⟨← decodeList? usedMethods⟩
    | _ => none

instance : Codec RelatedMethods where
  encode r := .object [
    ("related_methods", encode r.relatedMethods)]
  shape := .record "RelatedMethods" [
    (.required "related_methods", .list (Codec.shape MethodRef))]
  decode?
    | .object [("related_methods", relatedMethods)] => do
      some ⟨← decodeList? relatedMethods⟩
    | _ => none

instance : Codec GraphData where
  encode r := .object [
    ("data", encode r.data)]
  shape := .record "GraphData" [
    (.required "data", .list (Codec.shape GraphRow))]
  decode?
    | .object [("data", data)] => do
      some ⟨← decodeList? data⟩
    | _ => none

end CallIndex
