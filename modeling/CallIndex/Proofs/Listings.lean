import CallIndex.Cli.Answer
import CallIndex.Proofs.Adjacency
import CallIndex.Proofs.WholeGraph
import Mathlib.Data.List.Chain
import Mathlib.Data.String.Basic

/-!
# Listings are complete

Neighbours and the whole graph are listed under the documents that the methods stand in. A document is named
where it differs from that of the item above.

* `Run`: consecutive items under one header. `headed`: any listing with such headers.
* `exists_runs`: **a listing is made of runs**, each of one document, and runs that follow each other differ.
* `Filed`: what a list of neighbours shows, and `documentText` how it is printed.
* `Charted`: what the whole graph shows, and `sectionText` and `ShowsMethod` how it is printed.
* `listings_filed`: **listings lose nothing**, and what they show stands under its own document.
-/

namespace CallIndex.Cli

/-! ## Runs -/

section Runs

variable {α β : Type} (key : α → String) (header : α → β) (body : α → List β)

/-- Consecutive items of a listing under one header. -/
structure Run (α : Type) where
  first : α
  rest : List α
  deriving DecidableEq, Repr

def Run.items (run : Run α) : List α := run.first :: run.rest

/-- A listing that names the key of an item where it differs from the one above. -/
def headed : Option String → List α → List β
  | _, [] => []
  | above, a :: rest =>
    (if above = some (key a) then [] else [header a]) ++ body a ++ headed (some (key a)) rest

/-- The lines of a run: the header of its first item, and all its items. -/
def Run.lines (run : Run α) : List β := header run.first :: run.items.flatMap body

/-- The runs of a listing: each has one key, and no run has the key of the one before. -/
structure AreRuns (above : Option String) (runs : List (Run α)) : Prop where
  same : ∀ run ∈ runs, ∀ a ∈ run.items, key a = key run.first
  differ : (above.toList ++ runs.map fun run => key run.first).IsChain (· ≠ ·)

/-- **A listing is made of runs**, after the items that still stand under the header above. -/
theorem exists_runs (above : Option String) (items : List α) :
    ∃ lead runs, headed key header body above items =
        lead.flatMap body ++ runs.flatMap (Run.lines header body) ∧
      items = lead ++ runs.flatMap Run.items ∧ (∀ a ∈ lead, above = some (key a)) ∧
      AreRuns key above runs := by
  induction items generalizing above with
  | nil => exact ⟨[], [], rfl, rfl, List.forall_mem_nil _, List.forall_mem_nil _, by cases above <;> simp⟩
  | cons a items ih =>
    obtain ⟨lead, runs, hlines, hitems, hlead, hruns⟩ := ih (some (key a))
    unfold headed
    rw [hlines]
    by_cases habove : above = some (key a)
    · subst habove
      refine ⟨a :: lead, runs, ?_, ?_, List.forall_mem_cons.2 ⟨rfl, hlead⟩, hruns⟩
      · rw [if_pos rfl]
        simp
      · rw [hitems, List.cons_append]
    · -- a new run begins, and the items up to the next header are the rest of it
      refine ⟨[], ⟨a, lead⟩ :: runs, ?_, ?_, List.forall_mem_nil _, ?_, ?_⟩
      · rw [if_neg habove]
        simp [Run.lines, Run.items]
      · rw [hitems]
        simp [Run.items]
      · refine List.forall_mem_cons.2 ⟨?_, hruns.same⟩
        refine List.forall_mem_cons.2 ⟨rfl, fun b hb => ?_⟩
        exact (Option.some.inj (hlead b hb)).symm
      · have hdiffer := hruns.differ
        cases above with
        | none => exact hdiffer
        | some k =>
          refine List.isChain_cons_cons.2 ⟨?_, hdiffer⟩
          rintro rfl
          exact habove rfl

variable {key} {items : List α} {runs : List (Run α)}

/-- The headers of runs are among the keys of their items. -/
theorem firsts_sublist (runs : List (Run α)) :
    (runs.map fun run => key run.first).Sublist ((runs.flatMap Run.items).map key) := by
  induction runs with
  | nil => exact .slnil
  | cons run runs ih =>
    rw [List.map_cons, List.flatMap_cons, List.map_append]
    exact (List.singleton_sublist.2 List.mem_cons_self).append ih

/-- **If the keys ascend, each header comes once**, and in ascending order. -/
theorem AreRuns.ascending (h : AreRuns key none runs) (hitems : items = runs.flatMap Run.items)
    (hkeys : items.Pairwise fun a b => key a ≤ key b) :
    (runs.map fun run => key run.first).Pairwise (· < ·) := by
  subst hitems
  have hle : (runs.map fun run => key run.first).IsChain (· ≤ ·) :=
    ((List.pairwise_map.2 hkeys).sublist (firsts_sublist runs)).isChain
  have hne : (runs.map fun run => key run.first).IsChain (· ≠ ·) := h.differ
  refine List.IsChain.pairwise ?_
  rw [List.isChain_iff_forall_rel_of_append_cons_cons] at hle hne ⊢
  intro a b before after hsplit
  exact lt_of_le_of_ne (hle hsplit) (hne hsplit)

/-- **A run has all items of its key**, if no other run has the same. -/
theorem AreRuns.filter_eq {above : Option String} (h : AreRuns key above runs)
    (hkeys : (runs.map fun run => key run.first).Pairwise (· ≠ ·)) {run : Run α} (hrun : run ∈ runs) :
    (runs.flatMap Run.items).filter (fun a => key a = key run.first) = run.items := by
  obtain ⟨before, after, rfl⟩ := List.append_of_mem hrun
  rw [List.map_append, List.map_cons, List.pairwise_append, List.pairwise_cons] at hkeys
  obtain ⟨-, ⟨hafter, -⟩, hbefore⟩ := hkeys
  -- nothing in another run has the key
  have hnone : ∀ others : List (Run α), (∀ other ∈ others, other ∈ before ++ run :: after) →
      (∀ other ∈ others, key other.first ≠ key run.first) →
      (others.flatMap Run.items).filter (fun a => key a = key run.first) = [] := by
    intro others hothers hdiffer
    rw [List.filter_eq_nil_iff]
    intro a ha
    obtain ⟨other, hother, ha⟩ := List.mem_flatMap.1 ha
    rw [h.same other (hothers other hother) a ha]
    simpa using hdiffer other hother
  have hself : run.items.filter (fun a => key a = key run.first) = run.items := by
    rw [List.filter_eq_self]
    intro a ha
    simpa using h.same run hrun a ha
  rw [List.flatMap_append, List.flatMap_cons, List.filter_append, List.filter_append, hself,
    hnone before (fun other hother => List.mem_append_left _ hother) fun other hother =>
      hbefore _ (List.mem_map_of_mem hother) _ List.mem_cons_self,
    hnone after (fun other hother => List.mem_append_right _ (List.mem_cons_of_mem _ hother))
      fun other hother => (hafter _ (List.mem_map_of_mem hother)).symm,
    List.append_nil, List.nil_append]

end Runs

/-! ## Texts of lines -/

theorem textOf_cons (line : String) (lines : List String) :
    textOf (line :: lines) = line ++ "\n" ++ textOf lines := by
  rw [textOf, List.map_cons, String.join_cons, ← textOf]

theorem textOf_singleton (line : String) : textOf [line] = line ++ "\n" := by
  rw [textOf_cons, textOf, List.map_nil, String.join_nil, String.append_empty]

theorem textOf_append (lines more : List String) :
    textOf (lines ++ more) = textOf lines ++ textOf more := by
  rw [textOf, List.map_append, String.join_append, ← textOf, ← textOf]

theorem textOf_map {α : Type} (text : α → String) (items : List α) :
    textOf (items.map text) = String.join (items.map fun a => text a ++ "\n") := by
  rw [textOf, List.map_map]
  rfl

theorem textOf_map_flatMap {α β : Type} (text : β → String) (lines : α → List β) (items : List α) :
    textOf ((items.flatMap lines).map text) =
      String.join (items.map fun a => textOf ((lines a).map text)) := by
  induction items with
  | nil => rfl
  | cons a items ih =>
    rw [List.flatMap_cons, List.map_append, textOf_append, ih, List.map_cons, String.join_cons]

theorem colon_lineFeed : ":\n" = ":" ++ "\n" := by decide +kernel

/-- A text with the mark of an id. -/
theorem append_idMark (text : String) (id : RowId) :
    text ++ " " ++ idMark id = text ++ " #" ++ toString id := by
  have hmark : " #" = " " ++ "#" := by decide +kernel
  rw [idMark, hmark, ← String.append_assoc, ← String.append_assoc]

/-! ## Neighbours -/

theorem refLe_iff {a b : MethodRef} : refLe a b = true ↔
    a.documentPath < b.documentPath ∨ (a.documentPath = b.documentPath ∧ a.methodId ≤ b.methodId) := by
  simp [refLe]

theorem refLe_trans (a b c : MethodRef) (hab : refLe a b = true) (hbc : refLe b c = true) :
    refLe a c = true := by
  rw [refLe_iff] at *
  rcases hab with hab | ⟨hab, hab'⟩ <;> rcases hbc with hbc | ⟨hbc, hbc'⟩
  · exact Or.inl (hab.trans hbc)
  · exact Or.inl (hbc ▸ hab)
  · exact Or.inl (hab ▸ hbc)
  · exact Or.inr ⟨hab.trans hbc, Int.le_trans hab' hbc'⟩

theorem refLe_total (a b : MethodRef) : (refLe a b || refLe b a) = true := by
  rw [Bool.or_eq_true, refLe_iff, refLe_iff]
  rcases lt_trichotomy a.documentPath b.documentPath with h | h | h
  · exact Or.inl (Or.inl h)
  · exact (Int.le_total a.methodId b.methodId).imp (fun hid => Or.inr ⟨h, hid⟩)
      fun hid => Or.inr ⟨h.symm, hid⟩
  · exact Or.inr (Or.inl h)

theorem underDocuments_eq (above : Option String) (refs : List MethodRef) :
    underDocuments above refs = headed MethodRef.documentPath (fun r => .document r.documentPath)
      (fun r => [.method r]) above refs := by
  induction refs generalizing above with
  | nil => rfl
  | cons r refs ih =>
    rw [underDocuments, headed, ← ih]
    split
    · rename_i habove
      rw [habove]
      rfl
    · rfl

/-- The neighbours in one document, under its header. -/
def documentLines (run : Run MethodRef) : List RefLine :=
  .document run.first.documentPath :: run.items.map .method

/-- How the neighbours in one document are printed: the path of the document, and under it a line for
each. -/
def documentText (run : Run MethodRef) : String :=
  "  " ++ run.first.documentPath ++ ":\n" ++
    String.join (run.items.map fun r =>
      "    • " ++ r.methodSignature ++ " #" ++ toString r.methodId ++ "\n")

theorem textOf_documentLines (run : Run MethodRef) :
    textOf ((documentLines run).map RefLine.text) = documentText run := by
  have hheader : (RefLine.document run.first.documentPath).text ++ "\n" =
      "  " ++ run.first.documentPath ++ ":\n" := by
    rw [RefLine.text, colon_lineFeed, ← String.append_assoc]
  have hline (r : MethodRef) : (RefLine.method r).text =
      "    • " ++ r.methodSignature ++ " #" ++ toString r.methodId := append_idMark _ _
  rw [documentLines, List.map_cons, textOf_cons, hheader, List.map_map, textOf_map, documentText]
  simp only [Function.comp_apply, hline]

/-- References under the documents that they stand in: each is there once, each document has one header,
in ascending order, and under it are just its references, in ascending order of ids. -/
structure Filed (refs : List MethodRef) (runs : List (Run MethodRef)) : Prop where
  once : (runs.flatMap Run.items).Perm refs
  documents : (runs.map fun run => run.first.documentPath).Pairwise (· < ·)
  exactly : ∀ run ∈ runs,
    run.items.Perm (refs.filter fun r => r.documentPath = run.first.documentPath)
  ascending : ∀ run ∈ runs, run.items.Pairwise fun r s => r.methodId ≤ s.methodId

/-- **A list of neighbours is filed under documents.** -/
theorem exists_filed {refs : List MethodRef} (h : refs ≠ []) :
    ∃ runs, refLines refs = runs.flatMap documentLines ∧ Filed refs runs := by
  have hsorted : (refs.mergeSort refLe).Pairwise fun a b => refLe a b = true :=
    List.pairwise_mergeSort refLe_trans refLe_total refs
  have hperm : (refs.mergeSort refLe).Perm refs := List.mergeSort_perm refs refLe
  obtain ⟨lead, runs, hlines, hitems, hlead, hruns⟩ := exists_runs MethodRef.documentPath
    (fun r => RefLine.document r.documentPath) (fun r => [.method r]) none (refs.mergeSort refLe)
  obtain rfl : lead = [] := List.eq_nil_iff_forall_not_mem.2 fun r hr => nomatch hlead r hr
  rw [List.nil_append] at hitems
  have hdocuments := hruns.ascending hitems <| hsorted.imp fun hle =>
    (refLe_iff.1 hle).elim le_of_lt fun hsame => le_of_eq hsame.1
  refine ⟨runs, ?_, ?_, hdocuments, fun run hrun => ?_, fun run hrun => ?_⟩
  · unfold refLines
    rw [if_neg (by simpa using h), underDocuments_eq, hlines]
    refine List.flatMap_congr fun run _ => ?_
    rw [Run.lines, documentLines, List.map_eq_flatMap]
  · rw [← hitems]
    exact hperm
  · rw [← hruns.filter_eq (hdocuments.imp ne_of_lt) hrun, ← hitems]
    exact hperm.filter _
  · have hsub : run.items.Sublist (refs.mergeSort refLe) := by
      rw [← hruns.filter_eq (hdocuments.imp ne_of_lt) hrun, ← hitems]
      exact List.filter_sublist
    refine (hsorted.sublist hsub).imp_of_mem fun {r s} hr hs hle => ?_
    rcases refLe_iff.1 hle with hlt | ⟨-, hid⟩
    · rw [hruns.same run hrun r hr, hruns.same run hrun s hs] at hlt
      exact absurd hlt (lt_irrefl _)
    · exact hid

example : refLines [⟨3, "h", "b"⟩, ⟨2, "g", "a"⟩, ⟨1, "f", "b"⟩] =
    [.document "a", .method ⟨2, "g", "a"⟩, .document "b", .method ⟨1, "f", "b"⟩,
      .method ⟨3, "h", "b"⟩] := by
  cbv

/-! ## The whole graph -/

theorem graphLines_eq (above : Option String) (rows : List GraphRow) :
    graphLines above rows = headed GraphRow.documentPath
      (fun r => .document r.documentPath r.projectName) methodBlock above rows := by
  induction rows generalizing above with
  | nil => rfl
  | cons r rows ih => rw [graphLines, headed, ← ih]

/-- The methods of consecutive rows of one document, under its header, with all that is shown of them. -/
def sectionLines (run : Run GraphRow) : List GraphLine :=
  .document run.first.documentPath run.first.projectName :: run.items.flatMap methodBlock

/-- How these are printed, each method as a block of text. -/
def sectionText (block : GraphRow → String) (run : Run GraphRow) : String :=
  run.first.documentPath ++ " (" ++ run.first.projectName ++ ")\n" ++
    String.join (run.items.map block)

/-- The block of a method. -/
def blockText (row : GraphRow) : String := textOf ((methodBlock row).map GraphLine.text)

theorem textOf_sectionLines (run : Run GraphRow) :
    textOf ((sectionLines run).map GraphLine.text) = sectionText blockText run := by
  have hheader (path project : String) :
      (GraphLine.document path project).text ++ "\n" = path ++ " (" ++ project ++ ")\n" := by
    have hend : ")\n" = ")" ++ "\n" := by decide +kernel
    show path ++ " (" ++ project ++ ")" ++ "\n" = _
    rw [hend, ← String.append_assoc]
  rw [sectionLines, List.map_cons, textOf_cons, hheader, textOf_map_flatMap]
  rfl

/-- How a neighbour is printed. -/
def edgeText (e : EdgeRef) : String := "      • " ++ e.signature ++ " #" ++ toString e.id ++ "\n"

/-- How a list of neighbours is printed: that there is none, or all of them, or the first ten of them and how
many there are beside these. -/
structure Shows (label : String) (edges : List EdgeRef) (text : String) : Prop where
  nothing : edges = [] → text = "    " ++ label ++ ": none\n"
  all : edges ≠ [] → edges.length ≤ 10 →
    text = "    " ++ label ++ ":\n" ++ String.join (edges.map edgeText)
  first : 10 < edges.length →
    text = "    " ++ label ++ ":\n" ++ String.join ((edges.take 10).map edgeText) ++
      "      • ... and " ++ toString (edges.length - 10) ++ " more\n"

theorem text_edge (e : EdgeRef) : (GraphLine.edge e).text ++ "\n" = edgeText e := by
  show "      • " ++ e.signature ++ " " ++ idMark e.id ++ "\n" = _
  rw [append_idMark, edgeText]

theorem edgeLines_shows (side : Side) (edges : List EdgeRef) :
    Shows side.label edges (textOf ((edgeLines side edges).map GraphLine.text)) := by
  have hshown : shownEdges = 10 := rfl
  have hlabel : (GraphLine.side side).text ++ "\n" = "    " ++ side.label ++ ":\n" := by
    show "    " ++ side.label ++ ":" ++ "\n" = _
    rw [colon_lineFeed, ← String.append_assoc]
  have hedges (edges : List EdgeRef) :
      textOf ((edges.map GraphLine.edge).map GraphLine.text) = String.join (edges.map edgeText) := by
    rw [List.map_map, textOf_map]
    simp only [Function.comp_apply, text_edge]
  unfold edgeLines
  rw [hshown]
  constructor
  · rintro rfl
    have hnone : ": none\n" = ": none" ++ "\n" := by decide +kernel
    rw [List.isEmpty_nil, if_pos rfl, List.map_singleton, textOf_singleton]
    show "    " ++ side.label ++ ": none" ++ "\n" = _
    rw [hnone, ← String.append_assoc]
  · intro hne hfew
    rw [if_neg (by simpa using hne), List.take_of_length_le hfew, if_neg (Nat.not_lt.2 hfew),
      List.append_nil, List.map_cons, textOf_cons, hlabel, hedges]
  · intro hmany
    have hne : edges ≠ [] := by
      rintro rfl
      cases hmany
    have hmore : (GraphLine.more (edges.length - 10)).text ++ "\n" =
        "      • ... and " ++ toString (edges.length - 10) ++ " more\n" := by
      have hend : " more\n" = " more" ++ "\n" := by decide +kernel
      show "      • ... and " ++ toString (edges.length - 10) ++ " more" ++ "\n" = _
      rw [hend, ← String.append_assoc]
    rw [if_neg (by simpa using hne), if_pos hmany, List.cons_append, List.map_cons, textOf_cons,
      hlabel, List.map_append, textOf_append, hedges, List.map_singleton, textOf_singleton, hmore]
    simp only [String.append_assoc]

/-- How a method is printed: its own line, then its callees and its callers, both in ascending order of
ids. -/
structure ShowsMethod (row : GraphRow) (text : String) : Prop where
  block : ∃ callees callers,
    text = "  " ++ row.methodSignature ++ " #" ++ toString row.methodId ++ "\n" ++ callees ++ callers ∧
      Shows "calls" row.callees callees ∧ Shows "called by" row.callers callers
  callees : row.callees.Pairwise fun e f => e.id < f.id
  callers : row.callers.Pairwise fun e f => e.id < f.id

/-- The whole graph under the documents that the methods stand in: each row is there once, in the order
of the rows, under a header with its own document and project. -/
structure Charted (rows : List GraphRow) (runs : List (Run GraphRow)) : Prop where
  once : runs.flatMap Run.items = rows
  header : ∀ run ∈ runs, ∀ r ∈ run.items,
    r.documentPath = run.first.documentPath ∧ r.projectName = run.first.projectName

section Graph

open Index (Describes WellFormed)

variable {x : Index} {m k : Method} {row row' : GraphRow} {rows : List GraphRow}

/-- Methods of one document are of one project. -/
theorem projectName_eq (hx : WellFormed x) (h : Describes x m row) (h' : Describes x k row')
    (hpath : row.documentPath = row'.documentPath) : row.projectName = row'.projectName := by
  obtain ⟨c, d, p, home, -, -, -, hd, -, hp⟩ := h.home
  obtain ⟨c', d', p', home', -, -, -, hd', -, hp'⟩ := h'.home
  rw [hd, hd'] at hpath
  obtain rfl : d = d' := hx.documents.eq_of_key home.storedDocument home'.storedDocument hpath
  obtain rfl : p = p' := hx.projects.eq_of_id home.storedProject home'.storedProject
    (home.projectId.trans home'.projectId.symm)
  rw [hp, hp']

theorem blockText_shows (hx : WellFormed x) (h : Describes x m row) :
    ShowsMethod row (blockText row) := by
  obtain ⟨refs, -, hcallees, hrefs⟩ := h.callees
  obtain ⟨refs', -, hcallers, hrefs'⟩ := h.callers
  refine ⟨⟨_, _, ?_, edgeLines_shows .callees _, edgeLines_shows .callers _⟩, ?_, ?_⟩
  · have hline : (GraphLine.method row.methodId row.methodSignature).text =
        "  " ++ row.methodSignature ++ " #" ++ toString row.methodId := append_idMark _ _
    rw [blockText, methodBlock, List.cons_append, List.map_cons, textOf_cons, hline, List.map_append,
      textOf_append, ← String.append_assoc]
  · rw [hcallees]
    exact List.pairwise_map.2 (Index.ascending_of_refers hx hrefs)
  · rw [hcallers]
    exact List.pairwise_map.2 (Index.ascending_of_refers hx hrefs')

/-- **The rows of the whole graph are charted under documents.** -/
theorem exists_charted (hx : WellFormed x) (hall : List.Forall₂ (Describes x) x.methods rows) :
    ∃ runs, graphLines none rows = runs.flatMap sectionLines ∧ Charted rows runs := by
  obtain ⟨lead, runs, hlines, hitems, hlead, hruns⟩ := exists_runs GraphRow.documentPath
    (fun r => GraphLine.document r.documentPath r.projectName) methodBlock none rows
  obtain rfl : lead = [] := List.eq_nil_iff_forall_not_mem.2 fun r hr => nomatch hlead r hr
  rw [List.nil_append] at hitems
  refine ⟨runs, by rw [graphLines_eq, hlines]; rfl, hitems.symm, fun run hrun r hr => ?_⟩
  -- both the row and the first one of the run are about stored methods
  have hmem : ∀ s ∈ run.items, ∃ m ∈ x.methods, Describes x m s := fun s hs =>
    exists_of_mem_right hall (hitems ▸ List.mem_flatMap.2 ⟨run, hrun, hs⟩)
  have hpath := hruns.same run hrun r hr
  obtain ⟨m, -, hm⟩ := hmem r hr
  obtain ⟨k, -, hk⟩ := hmem run.first List.mem_cons_self
  exact ⟨hpath, projectName_eq hx hm hk hpath⟩

end Graph

/-- **Listings lose nothing.** Neighbours are filed under their documents: each one is printed once, each
document has one header, the headers ascend, and under each are just its neighbours, in ascending order of
ids. The whole graph has each stored method once, in ascending order of ids, under a header with its own
document and project. Of each of its two lists of neighbours it shows all, or the first ten and how many
more there are. -/
theorem listings_filed :
    (∀ (heading : String) (refs : List MethodRef),
      (refs = [] → neighboursText heading refs = heading ++ "\n  none\n") ∧
      (refs ≠ [] → ∃ runs, Filed refs runs ∧
        neighboursText heading refs = heading ++ "\n" ++ String.join (runs.map documentText))) ∧
    ∀ (ops : List (Refusal × Index.Operation)) (path : String) (size : Option Nat),
      (∀ op ∈ ops, op.1.KeepsWidth) →
      ∃ answer rows, Query.graph.answer path size (.run .empty ops) = .ok answer ∧
        List.Forall₂ (Index.Describes (.run .empty ops)) (Index.run .empty ops).methods rows ∧
        (rows.Pairwise fun r s => r.methodId < s.methodId) ∧
        (rows = [] → answer.printed false = "No methods indexed\n") ∧
        (rows ≠ [] → ∃ runs block, Charted rows runs ∧ (∀ r ∈ rows, ShowsMethod r (block r)) ∧
          answer.printed false = String.join (runs.map (sectionText block)) ++
            "\nTotal: " ++ toString rows.length ++ " methods\n") := by
  refine ⟨fun heading refs => ⟨?_, fun hne => ?_⟩, fun ops path size hops => ?_⟩
  · rintro rfl
    have hnone : "\n  none\n" = "\n" ++ ("  none" ++ "\n") := by decide +kernel
    rw [neighboursText, textOf_cons, hnone, ← String.append_assoc]
    exact congrArg (heading ++ "\n" ++ ·) (textOf_singleton _)
  · obtain ⟨runs, hlines, hfiled⟩ := exists_filed hne
    refine ⟨runs, hfiled, ?_⟩
    rw [neighboursText, hlines, textOf_cons, textOf_map_flatMap]
    simp only [textOf_documentLines]
  · have hx : Index.WellFormed (.run .empty ops) := (Index.Reachable.empty.run ops).wellFormed
    obtain ⟨rows, hrows, hall⟩ := Index.exists_fullGraph hx
      (Index.idsFit_run hops fun _ hm => nomatch hm)
    obtain ⟨runs, hlines, hcharted⟩ := exists_charted hx hall
    refine ⟨_, rows, by unfold Query.answer; rw [hrows]; rfl, hall, ?_, ?_, fun hne => ?_⟩
    · exact ascending_of_map_eq (map_eq_of_forall₂ hall fun _ _ => Index.Describes.methodId)
        hx.methods.ascending
    · rintro rfl
      rfl
    · refine ⟨runs, blockText, hcharted, fun r hr => ?_, ?_⟩
      · obtain ⟨m, -, hm⟩ := exists_of_mem_right hall hr
        exact blockText_shows hx hm
      · show graphText rows = _
        unfold graphText
        rw [if_neg (by simpa using hne), hlines, textOf_append, textOf_map_flatMap, textOf_cons,
          textOf_singleton]
        have htotal : "\nTotal: " = "" ++ "\n" ++ "Total: " := by decide +kernel
        have hend : " methods\n" = " methods" ++ "\n" := by decide +kernel
        simp only [textOf_sectionLines, htotal, hend, String.append_assoc]

/-- The first method calls eleven methods of another document, so one of them is only counted. The last
method is of the first document again. -/
theorem listings_filed_cut :
    let names := ["a", "b", "c", "d", "e", "f", "g", "h", "i", "j", "k"]
    let bs : List Batch :=
      [⟨"demo", "B.java", ["B"], [⟨"B.run()", "", none, none⟩], []⟩,
      ⟨"demo", "A.java", ["A"], names.map fun n => ⟨"A." ++ n ++ "()", "", none, none⟩,
        names.map fun n => ⟨"B.run()", "A." ++ n⟩⟩,
      ⟨"demo", "B.java", ["B"], [⟨"B.stop()", "", none, none⟩], []⟩]
    let ops : List (Refusal × Index.Operation) := [(.outOfIds, .ingestAll bs)]
    (∀ op ∈ ops, op.1.KeepsWidth) ∧
      ∃ answer rows runs block, Query.graph.answer "i.db" none (.run .empty ops) = .ok answer ∧
        rows.length = 13 ∧ Charted rows runs ∧
        answer.printed false = String.join (runs.map (sectionText block)) ++ "\nTotal: " ++
          toString 13 ++ " methods\n" ∧
        ∃ row ∈ rows, row.methodId = 1 ∧ row.callees.length = 11 ∧
          ∃ callers, block row = "  B.run() #1\n    calls:\n" ++
            String.join ((row.callees.take 10).map edgeText) ++ "      • ... and 1 more\n" ++
              callers := by
  intro names bs ops
  have hops : ∀ op ∈ ops, op.1.KeepsWidth := by
    intro op hop
    rw [List.mem_singleton.1 hop]
    exact Refusal.keepsWidth_outOfIds
  obtain ⟨answer, rows, hanswer, hall, -, -, hprinted⟩ := listings_filed.2 ops "i.db" none hops
  have hlength : rows.length = 13 := by
    rw [← hall.length_eq]
    decide +kernel
  have hmethods : (Index.run .empty ops).methods =
      ⟨1, 1, "run()", "B.run()", "", none, none⟩ :: (Index.run .empty ops).methods.tail := by
    decide +kernel
  rw [hmethods] at hall
  obtain _ | ⟨hrow, _⟩ := hall
  obtain ⟨runs, block, hcharted, hshown, htext⟩ := hprinted (List.cons_ne_nil _ _)
  have hout : (Index.run .empty ops).callees 1 =
      .ok ((names.zipIdx 2).map fun n => ⟨n.2, "A." ++ n.1 ++ "()", "A.java"⟩) := by
    decide +kernel
  have hcount := congrArg List.length (hrow.callees_eq hout)
  obtain ⟨⟨out, into, hblock, hshows, -⟩, -, -⟩ := hshown _ List.mem_cons_self
  refine ⟨hops, answer, _, runs, block, hanswer, hlength, hcharted, ?_, _, List.mem_cons_self,
    hrow.methodId, hcount, into, ?_⟩
  · rw [htext, hlength]
  · have hfront : "  B.run() #1\n    calls:\n" = "  " ++ "B.run()" ++ " #" ++ toString (1 : RowId) ++
        "\n" ++ ("    " ++ "calls" ++ ":\n") := by
      decide +kernel
    have hmore : "      • ... and 1 more\n" = "      • ... and " ++ toString (11 - 10) ++ " more\n" := by
      decide +kernel
    rw [hblock, hshows.first (by rw [hcount]; decide), hrow.methodSignature, hrow.methodId, hcount,
      hfront, hmore]
    simp only [String.append_assoc]
    rfl

end CallIndex.Cli
