import CallIndex.Batch.Json
import CallIndex.Index.Ingest

/-!
# Ingest of JSON texts

* `Index.ingestJson`: decode a text and ingest its batches. A text that does not decode changes
  nothing.
-/

namespace CallIndex.Index

/-- Decode a text and ingest its batches. -/
def ingestJson (refuse : Refusal) (x : Index) (text : String) :
    Index × Except Error (List Report) :=
  match Batch.parse text with
  | .error e => (x, .error e)
  | .ok batches => x.ingestAll refuse batches

end CallIndex.Index
