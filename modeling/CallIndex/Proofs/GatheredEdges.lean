import CallIndex.Index.Graph
import CallIndex.Proofs.JsonRoundTrip
import CallIndex.Proofs.Table

/-!
# Edges gathered as text

The edges of a method are written one by one, each distinct text is kept once, and the texts between
commas and brackets are read back as a list. Nothing of an edge is lost on the way, whatever
characters its signature has, since different edges have different texts.

* `EdgeRef.write_injective`: an edge is told by its text.
* `gatherEdges_eq`: **gathered edges are the distinct edges in their order**, if the ids have 64 bits.
-/

namespace CallIndex

open Json

namespace Json

/-- The items of a list are their texts with commas between them. -/
theorem compactItems_eq_intercalate (vs : List Value) :
    Value.compactItems true vs = [','].intercalate (vs.map Value.compactChars) := by
  cases vs with
  | nil => rfl
  | cons v vs =>
    -- the comma stands before each item but the first, so the first one is kept apart
    induction vs generalizing v with
    | nil => simp [Value.compactItems, List.intercalate_singleton]
    | cons w vs ih =>
      have hw := ih w
      rw [Value.compactItems] at hw
      rw [Value.compactItems, Value.compactItems]
      rw [List.map_cons, List.map_cons, List.intercalate_cons_cons, ← List.map_cons, ← hw]
      simp

end Json

namespace EdgeRef

theorem narrow {e : EdgeRef} (h : Width.signed64.holds e.id = true) : (encode e).Narrow := by
  simpa [encode] using h

/-- **An edge is told by its text.** -/
theorem write_injective {e f : EdgeRef} (he : Width.signed64.holds e.id = true)
    (hf : Width.signed64.holds f.id = true) (h : write e = write f) : e = f := by
  have hread := Lawful.read_write (narrow he)
  rw [h, Lawful.read_write (narrow hf), Except.ok.injEq] at hread
  exact hread.symm

/-- The texts of some edges, between commas and brackets. -/
theorem toList_gathered (es : List EdgeRef) :
    ("[" ++ String.intercalate "," (es.map write) ++ "]").toList =
      (Value.array (es.map encode)).compactChars := by
  rw [Value.compactChars, compactItems_eq_intercalate, String.toList_append, String.toList_append,
    String.toList_intercalate, List.map_map, List.map_map]
  have hwrite : String.toList ∘ write = Value.compactChars ∘ encode (α := EdgeRef) := by
    funext e
    exact String.toList_ofList
  rw [hwrite]
  rfl

end EdgeRef

namespace Index

/-- The text of some edges reads back as them, in the edge order. -/
theorem readGathered_text {es : List EdgeRef}
    (h : ∀ e ∈ es, Width.signed64.holds e.id = true) :
    readGathered (some ("[" ++ String.intercalate "," (es.map write) ++ "]")) =
      .ok (es.mergeSort EdgeRef.le) := by
  obtain ⟨ws, hws, hdecode⟩ := Lawful.forms_all (narrow_list.2 fun e he => EdgeRef.narrow (h e he))
  have hread := hws.readDocument hws.narrow.compact
  have htext : _ = (encode es).compactChars := EdgeRef.toList_gathered es
  unfold readGathered
  simp only [htext, hread, hdecode, Option.getD_some]

/-- **Gathered edges are the distinct edges in their order**, if their ids have 64 bits. -/
theorem gatherEdges_eq {edges : List (Option EdgeRef)}
    (h : ∀ e ∈ edges.filterMap id, Width.signed64.holds e.id = true) :
    gatherEdges edges = .ok ((edges.filterMap id).eraseDups.mergeSort EdgeRef.le) := by
  unfold gatherEdges gatheredText
  generalize edges.filterMap id = es at h ⊢
  have hread := readGathered_text fun e he => h e (List.mem_eraseDups.1 he)
  -- distinct texts are the texts of distinct edges
  rw [← eraseDups_map fun e he f hf => EdgeRef.write_injective (h e he) (h f hf)] at hread
  cases es with
  | nil => simp [readGathered]
  | cons e es => exact hread

end Index

end CallIndex
