import CallIndex.Context

/-!
# Context over any call graph

Context is assembled over any answers: a listed neighbour may be listed twice, be missing, or fail to load.

* `CallGraph.failure?`: why the look-up of a neighbour fails, if not because there is none.
  `CallGraph.firstFailure?`: the first failure in a list of neighbours.
* `CallGraph.found`: the neighbours that are found, each with its source.
* `neighbourSource_eq`: what becomes of one neighbour. `resolveAll_eq`: **a list ends with its first failure,
  or else gives what is found.**
* `context_over_any_graph`: **both contexts fail only as the queries do**, and otherwise hold what is found.
-/

namespace CallIndex

/-- Joined texts are empty only if there are none, or a single empty one. -/
theorem intercalate_eq_empty_iff (texts : List String) :
    String.intercalate "\n" texts = "" ↔ texts = [] ∨ texts = [""] := by
  rw [← String.toList_inj, String.toList_intercalate]
  match texts with
  | [] => simp
  | [text] => simp
  | text :: next :: rest => simp [List.intercalate_cons_cons]

namespace CallGraph

/-! ## Neighbours -/

section Neighbours

variable (g : CallGraph)

/-- The answer to the look-up of a neighbour. -/
def lookUp (r : MethodRef) : Except Error MethodSource :=
  g.methodInDocument r.methodSignature r.documentPath

/-- Why the look-up of a neighbour fails. One that is not found is no failure. -/
def failure? (r : MethodRef) : Option Error :=
  match g.lookUp r with
  | .ok _ => none
  | .error e => if e.isNotFound then none else some e

/-- The first failure in a list of neighbours. -/
def firstFailure? (refs : List MethodRef) : Option Error := refs.findSome? g.failure?

/-- The neighbours of a list that are found, each as often as it is listed, with its source. -/
def found (refs : List MethodRef) : List (MethodRef × MethodSource) :=
  refs.filterMap fun r => (g.lookUp r).toOption.map fun source => (r, source)

/-- **One neighbour** fails, or has a source or none. -/
theorem neighbourSource_eq (r : MethodRef) :
    g.neighbourSource r =
      match g.failure? r with
      | some e => .error e
      | none => .ok (g.lookUp r).toOption := by
  have hlook : g.lookUp r = g.methodInDocument r.methodSignature r.documentPath := rfl
  unfold neighbourSource failure?
  rw [hlook]
  cases g.methodInDocument r.methodSignature r.documentPath with
  | ok source => rfl
  | error e => cases e <;> rfl

/-- **A list of neighbours** ends with its first failure, or else gives those that are found. -/
theorem resolveAll_eq (refs : List MethodRef) :
    g.resolveAll refs =
      match g.firstFailure? refs with
      | some e => .error e
      | none => .ok (g.found refs) := by
  induction refs with
  | nil => rfl
  | cons r refs ih =>
    unfold firstFailure? found at ih ⊢
    rw [resolveAll, neighbourSource_eq, List.findSome?_cons, List.filterMap_cons]
    cases g.failure? r with
    | some e => rfl
    | none =>
      -- one that is not found is left out, and the list goes on
      dsimp only
      rw [ih]
      cases List.findSome? g.failure? refs <;> cases (g.lookUp r).toOption <;> rfl

end Neighbours

/-! ## Contexts -/

variable {g : CallGraph} {signature document : String} {source : MethodSource}

/-- How the assembly of a context ends: with the error of the query for the neighbours, or else with the
first failure among them, or else well. -/
def Assembles {α : Type} (g : CallGraph) (listing : Except Error (List MethodRef))
    (result : Except Error α) (holds : List MethodRef → α → Prop) : Prop :=
  match listing with
  | .error e => result = .error e
  | .ok refs =>
    match g.firstFailure? refs with
    | some e => result = .error e
    | none => ∃ a, result = .ok a ∧ holds refs a

/-- A method with all neighbours as they are listed, and the sources of those that are found. -/
structure UsageOf (g : CallGraph) (source : MethodSource) (refs : List MethodRef)
    (u : UsageContext) : Prop where
  method : u.method = source
  usedMethods : u.usedMethods = refs
  auxiliary : u.auxiliary = String.intercalate "\n" ((g.found refs).map fun r => r.2.method)
  hasUsedMethods : u.hasUsedMethods = false ↔
    g.found refs = [] ∨ ∃ r, g.found refs = [r] ∧ r.2.method = ""

/-- A method with the neighbours that are found: the id and the text of each source, and the path of the
list. -/
structure RelatedOf (g : CallGraph) (source : MethodSource) (refs : List MethodRef)
    (c : RelatedContext) : Prop where
  method : c.method = source
  related : c.related =
    (g.found refs).map fun r => ⟨r.2.methodId, r.2.method, r.1.documentPath⟩

theorem usage_assembles (h : g.methodInDocument signature document = .ok source) :
    g.Assembles (g.callees source.methodId) (g.usage signature document) (g.UsageOf source) := by
  unfold Assembles usage
  rw [h]
  cases hrefs : g.callees source.methodId with
  | error e => simp only [hrefs, bind, Except.bind]
  | ok refs =>
    have hall := g.resolveAll_eq refs
    dsimp only
    split <;> rename_i hfirst <;> rw [hfirst] at hall
    · simp only [hrefs, hall, bind, Except.bind]
    · refine ⟨_, by simp only [hrefs, hall, bind, Except.bind]; rfl, rfl, rfl, rfl, ?_⟩
      unfold UsageContext.hasUsedMethods
      rw [decide_eq_false_iff_not, Classical.not_not, intercalate_eq_empty_iff, List.map_eq_nil_iff,
        List.map_eq_singleton_iff]

theorem related_assembles (h : g.methodInDocument signature document = .ok source) :
    g.Assembles (g.callers source.methodId) (g.related signature document) (g.RelatedOf source) := by
  unfold Assembles related
  rw [h]
  cases hrefs : g.callers source.methodId with
  | error e => simp only [hrefs, bind, Except.bind]
  | ok refs =>
    have hall := g.resolveAll_eq refs
    dsimp only
    split <;> rename_i hfirst <;> rw [hfirst] at hall
    · simp only [hrefs, hall, bind, Except.bind]
    · exact ⟨_, by simp only [hrefs, hall, bind, Except.bind]; rfl, rfl, rfl⟩

/-- **Context over any graph.** Whatever a graph answers, each context ends with the error of the look-up
of the method, or else with that of the query for its neighbours, even if they are not found, or else with
the first failure among them. Otherwise it is assembled: the callees are those of the query, and both
contexts have just the neighbours that are found, in the order of the list and each as often as it is listed.
Over one list both contexts keep the same ones. -/
theorem context_over_any_graph (g : CallGraph) (signature document : String) :
    match g.methodInDocument signature document with
    | .error e => g.usage signature document = .error e ∧ g.related signature document = .error e
    | .ok source =>
      g.Assembles (g.callees source.methodId) (g.usage signature document) (g.UsageOf source) ∧
      g.Assembles (g.callers source.methodId) (g.related signature document) (g.RelatedOf source) ∧
      (g.callees source.methodId = g.callers source.methodId →
        (∃ e, g.usage signature document = .error e ∧ g.related signature document = .error e) ∨
          ∃ u c, g.usage signature document = .ok u ∧ g.related signature document = .ok c ∧
            u.auxiliary = String.intercalate "\n" (c.related.map RelatedUsage.methodBody)) := by
  cases h : g.methodInDocument signature document with
  | error e =>
    unfold usage related
    rw [h]
    exact ⟨rfl, rfl⟩
  | ok source =>
    have husage := usage_assembles h
    have hrelated := related_assembles h
    refine ⟨husage, hrelated, fun hsame => ?_⟩
    rw [← hsame] at hrelated
    unfold Assembles at husage hrelated
    split at husage
    · rename_i e hlisting
      rw [hlisting] at hrelated
      exact Or.inl ⟨e, husage, hrelated⟩
    rename_i refs hlisting
    rw [hlisting] at hrelated
    dsimp only at hrelated
    split at husage <;> rename_i hfirst <;> rw [hfirst] at hrelated
    · exact Or.inl ⟨_, husage, hrelated⟩
    · obtain ⟨u, hu, hue⟩ := husage
      obtain ⟨c, hc, hcr⟩ := hrelated
      refine Or.inr ⟨u, c, hu, hc, ?_⟩
      rw [hue.auxiliary, hcr.related, List.map_map]
      rfl

/-- A graph in which all methods call, and are called by, the same ones. One has an empty source, one
cannot be loaded, and one is not found. -/
def sampleGraph (refs : List MethodRef) : CallGraph where
  callees _ := .ok refs
  callers _ := .ok refs
  methodInDocument signature _ :=
    match signature with
    | "f" => .ok ⟨"f\n1", 1⟩
    | "empty" => .ok ⟨"", 2⟩
    | "locked" => .error (.pool "locked")
    | other => .error (.notFound other)

/-- A missing neighbour is left out, one that is listed twice is there twice, and one with an empty source is
there. Only what cannot be loaded is a failure. -/
theorem context_over_any_graph_repeated :
    let gone : MethodRef := ⟨9, "gone", "d"⟩
    let refs : List MethodRef := [gone, ⟨1, "f", "d"⟩, ⟨2, "empty", "e"⟩, gone, ⟨1, "f", "d"⟩]
    (∃ u c, (sampleGraph refs).usage "f" "d" = .ok u ∧ u.usedMethods = refs ∧
      u.auxiliary = "f\n1\n\nf\n1" ∧ (sampleGraph refs).related "f" "d" = .ok c ∧
      c.related = [⟨1, "f\n1", "d"⟩, ⟨2, "", "e"⟩, ⟨1, "f\n1", "d"⟩]) ∧
    (sampleGraph (gone :: ⟨3, "locked", "d"⟩ :: refs)).usage "f" "d" = .error (.pool "locked") := by
  intro gone refs
  obtain ⟨⟨u, hu, hue⟩, ⟨c, hc, hcr⟩, -⟩ := context_over_any_graph (sampleGraph refs) "f" "d"
  have hfails := (context_over_any_graph (sampleGraph (gone :: ⟨3, "locked", "d"⟩ :: refs)) "f" "d").1
  refine ⟨⟨u, c, hu, hue.usedMethods, ?_, hc, ?_⟩, hfails⟩
  · rw [hue.auxiliary]
    decide +kernel
  · rw [hcr.related]
    decide +kernel

end CallGraph

end CallIndex
