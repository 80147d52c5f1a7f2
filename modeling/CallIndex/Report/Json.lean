import CallIndex.Json.Codec
import CallIndex.Report

/-!
# Reports in JSON

* A status is written as the word `success`; there is no other one.
* Counts are written under the names of the tables.
-/

namespace CallIndex

open Json

instance : Codec Status where
  encode _ := .string "success"
  shape := .keyword "success"
  decode?
    | .string "success" => some .success
    | _ => none

instance : Codec Outcome where
  encode r := .object [("id", encode r.id), ("status", encode r.status)]
  shape := .record "BatchOutcome" [
    (.required "id", idShape),
    (.required "status", Codec.shape Status)]
  decode?
    | .object [("id", .whole id), ("status", status)] => do
      some ⟨id, ← decode? status⟩
    | _ => none

instance : Codec BatchFailure where
  encode r := .object [("error", .string r.error)]
  shape := .record "BatchFailure" [(.required "error", .string)]
  decode?
    | .object [("error", .string error)] => some ⟨error⟩
    | _ => none

instance : Encode IndexStats where
  encode s := .object [
    ("projects", encode s.projects),
    ("documents", encode s.documents),
    ("classes", encode s.classes),
    ("methods", encode s.methods),
    ("method_calls", encode s.methodCalls)]

end CallIndex
