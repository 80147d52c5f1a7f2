import CallIndex.Index.Basic
import CallIndex.Row.Json

/-!
# Indexes in JSON

An index is written as its five tables, parents before children, each a list of its rows.
-/

namespace CallIndex

open Json

instance : Codec Index where
  encode x := .object [
    ("projects", encode x.projects),
    ("documents", encode x.documents),
    ("classes", encode x.classes),
    ("methods", encode x.methods),
    ("method_calls", encode x.calls)]
  shape := .record "Index" [
    (.required "projects", .list (Codec.shape Project)),
    (.required "documents", .list (Codec.shape Document)),
    (.required "classes", .list (Codec.shape Class)),
    (.required "methods", .list (Codec.shape Method)),
    (.required "method_calls", .list (Codec.shape MethodCall))]
  decode?
    | .object [("projects", projects), ("documents", documents), ("classes", classes),
        ("methods", methods), ("method_calls", calls)] => do
      some ⟨← decodeList? projects, ← decodeList? documents, ← decodeList? classes,
        ← decodeList? methods, ← decodeList? calls⟩
    | _ => none

end CallIndex
