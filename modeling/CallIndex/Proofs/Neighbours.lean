import CallIndex.Index.Query
import CallIndex.Proofs.Invariant

/-!
# The neighbours of a method

Queries look rows up by the ids of other rows. In a well-formed index each look-up finds its row, so no
method is lost on the way from a call to a neighbour.

* `Index.Home`: the class, the document and the project that a method stands in. Each stored method
  has one (`exists_home`).
* `Index.linked`: the methods at the other end of the calls of a method, in ascending order of ids.
* `mem_groupRefs`, `pairwise_groupRefs`: a grouped list has the same neighbours, in ascending order.
* `callees_linked`, `callers_linked`: **a stored method is answered with its linked methods**, one
  neighbour for each.
-/

namespace CallIndex

/-- Lists that are related item by item have the same values, if related items do. -/
theorem map_eq_of_forall₂ {α β γ : Type} {R : α → β → Prop} {f : α → γ} {g : β → γ} {as : List α}
    {bs : List β} (h : List.Forall₂ R as bs) (hfg : ∀ a b, R a b → g b = f a) :
    bs.map g = as.map f := by
  induction h with
  | nil => rfl
  | cons hab _ ih => rw [List.map_cons, List.map_cons, hfg _ _ hab, ih]

namespace Index

variable {x : Index} {m : Method}

/-! ## Homes -/

/-- The class, the document and the project that a method stands in. -/
structure Home (x : Index) (m : Method) (c : Class) (d : Document) (p : Project) : Prop where
  storedClass : c ∈ x.classes
  storedDocument : d ∈ x.documents
  storedProject : p ∈ x.projects
  classId : c.id = m.classId
  documentId : d.id = c.documentId
  projectId : p.id = d.projectId

/-- **Every stored method has a home.** -/
theorem exists_home (hx : WellFormed x) (hm : m ∈ x.methods) : ∃ c d p, Home x m c d p := by
  obtain ⟨c, hc, hcm⟩ := List.mem_map.1 (hx.methodClass m hm)
  obtain ⟨d, hd, hdc⟩ := List.mem_map.1 (hx.classDocument c hc)
  obtain ⟨p, hp, hpd⟩ := List.mem_map.1 (hx.documentProject d hd)
  exact ⟨c, d, p, hc, hd, hp, hcm, hdc, hpd⟩

theorem methodById?_of_mem (hx : WellFormed x) (hm : m ∈ x.methods) :
    x.methodById? m.id = some m :=
  hx.methods.find?_id hm

namespace Home

variable {c : Class} {d : Document} {p : Project}

theorem classById? (h : Home x m c d p) (hx : WellFormed x) : x.classById? m.classId = some c :=
  h.classId ▸ hx.classes.find?_id h.storedClass

theorem documentById? (h : Home x m c d p) (hx : WellFormed x) :
    x.documentById? c.documentId = some d :=
  h.documentId ▸ hx.documents.find?_id h.storedDocument

theorem projectById? (h : Home x m c d p) (hx : WellFormed x) :
    x.projectById? d.projectId = some p :=
  h.projectId ▸ hx.projects.find?_id h.storedProject

theorem documentOf? (h : Home x m c d p) (hx : WellFormed x) : x.documentOf? m = some d := by
  unfold Index.documentOf?
  rw [h.classById? hx, Option.bind_some, h.documentById? hx]

end Home

/-! ## Grouped neighbours -/

theorem mem_insertRef {r : MethodRef} {refs : List MethodRef}
    (hid : ∀ s ∈ refs, s.methodId = r.methodId → s = r) (t : MethodRef) :
    t ∈ insertRef r refs ↔ t = r ∨ t ∈ refs := by
  induction refs with
  | nil => simp [insertRef]
  | cons s refs ih =>
    have ih := ih fun s hs => hid s (List.mem_cons_of_mem _ hs)
    unfold insertRef
    split
    · exact List.mem_cons
    split
    · -- the same id is the same neighbour
      rename_i _ he
      rw [hid s List.mem_cons_self he.symm]
      simp
    · rw [List.mem_cons, List.mem_cons, ih]
      tauto

/-- **A grouped list has the same neighbours**, if equal ids are equal neighbours. -/
theorem mem_groupRefs {refs : List MethodRef}
    (hid : ∀ r ∈ refs, ∀ s ∈ refs, s.methodId = r.methodId → s = r) (t : MethodRef) :
    t ∈ groupRefs refs ↔ t ∈ refs := by
  induction refs generalizing t with
  | nil => rfl
  | cons r refs ih =>
    have ih := ih fun r' hr' s hs =>
      hid r' (List.mem_cons_of_mem _ hr') s (List.mem_cons_of_mem _ hs)
    have hr : ∀ s ∈ groupRefs refs, s.methodId = r.methodId → s = r := fun s hs =>
      hid r List.mem_cons_self s (List.mem_cons_of_mem _ ((ih s).1 hs))
    show t ∈ insertRef r (groupRefs refs) ↔ _
    rw [mem_insertRef hr, ih, List.mem_cons]

theorem methodId_of_mem_insertRef {r t : MethodRef} {refs : List MethodRef}
    (h : t ∈ insertRef r refs) : t.methodId = r.methodId ∨ t ∈ refs := by
  induction refs with
  | nil => exact Or.inl (congrArg MethodRef.methodId (List.mem_singleton.1 h))
  | cons s refs ih =>
    unfold insertRef at h
    split at h
    · rcases List.mem_cons.1 h with rfl | h
      · exact Or.inl rfl
      · exact Or.inr h
    split at h
    · exact Or.inr h
    · rcases List.mem_cons.1 h with rfl | h
      · exact Or.inr List.mem_cons_self
      · exact (ih h).imp_right (List.mem_cons_of_mem _)

theorem pairwise_insertRef (r : MethodRef) {refs : List MethodRef}
    (h : refs.Pairwise fun s t => s.methodId < t.methodId) :
    (insertRef r refs).Pairwise fun s t => s.methodId < t.methodId := by
  induction refs with
  | nil => exact List.pairwise_singleton _ _
  | cons s refs ih =>
    obtain ⟨hs, hrefs⟩ := List.pairwise_cons.1 h
    unfold insertRef
    split
    · rename_i hlt
      refine List.pairwise_cons.2 ⟨?_, h⟩
      intro t ht
      rcases List.mem_cons.1 ht with rfl | ht
      · exact hlt
      · exact Int.lt_trans hlt (hs t ht)
    split
    · exact h
    · rename_i hlt hne
      refine List.pairwise_cons.2 ⟨?_, ih hrefs⟩
      intro t ht
      rcases methodId_of_mem_insertRef ht with ht | ht
      · -- the new neighbour goes behind this one, as it is neither smaller nor the same
        rw [ht]
        exact Int.lt_iff_le_and_ne.2 ⟨Int.not_lt.1 hlt, Ne.symm hne⟩
      · exact hs t ht

/-- **A grouped list is in ascending order of ids**, each id once. -/
theorem pairwise_groupRefs (refs : List MethodRef) :
    (groupRefs refs).Pairwise fun s t => s.methodId < t.methodId := by
  induction refs with
  | nil => exact .nil
  | cons r refs ih => exact pairwise_insertRef r ih

/-! ## Linked methods -/

/-- The methods at the far end of the calls whose near end is a method, in ascending order of ids. -/
def linked (x : Index) (near far : MethodCall → RowId) (id : RowId) : List Method :=
  x.methods.filter fun m => x.calls.any fun c => near c = id && far c = m.id

variable {near far : MethodCall → RowId} {id : RowId}

theorem mem_linked :
    m ∈ x.linked near far id ↔ m ∈ x.methods ∧ ∃ c ∈ x.calls, near c = id ∧ far c = m.id := by
  simp [linked]

theorem ascending_linked (hx : WellFormed x) :
    (x.linked near far id).Pairwise fun m k => m.id < k.id :=
  hx.methods.ascending.filter _

/-- A method without calls has no linked methods. -/
theorem linked_eq_nil_iff (hfar : ∀ c ∈ x.calls, far c ∈ x.methods.map Method.id) :
    x.linked near far id = [] ↔ ¬ ∃ c ∈ x.calls, near c = id := by
  rw [List.eq_nil_iff_forall_not_mem]
  constructor
  · rintro h ⟨c, hc, hnear⟩
    obtain ⟨m, hm, hid⟩ := List.mem_map.1 (hfar c hc)
    exact h m (mem_linked.2 ⟨hm, c, hc, hnear, hid.symm⟩)
  · intro h m hm
    obtain ⟨-, c, hc, hnear, -⟩ := mem_linked.1 hm
    exact h ⟨c, hc, hnear⟩

/-- A neighbour is the answer for a method: its id, its signature and the path of its document. -/
structure Refers (x : Index) (m : Method) (r : MethodRef) : Prop where
  methodId : r.methodId = m.id
  signature : r.methodSignature = m.signature
  home : ∃ c d p, Home x m c d p ∧ r.documentPath = d.path

theorem exists_refOf? (hx : WellFormed x) (hm : m ∈ x.methods) :
    ∃ r, x.refOf? m.id = some r ∧ Refers x m r := by
  obtain ⟨c, d, p, h⟩ := exists_home hx hm
  refine ⟨⟨m.id, m.signature, d.path⟩, ?_, rfl, rfl, c, d, p, h, rfl⟩
  unfold refOf?
  rw [methodById?_of_mem hx hm]
  simp only [bind, Option.bind]
  rw [h.documentOf? hx]

/-- The neighbours of some stored methods, one for each. -/
theorem refers_filterMap (hx : WellFormed x) {ms : List Method} (hms : ∀ m ∈ ms, m ∈ x.methods) :
    List.Forall₂ (Refers x) ms (ms.filterMap fun m => x.refOf? m.id) := by
  induction ms with
  | nil => exact .nil
  | cons m ms ih =>
    obtain ⟨r, hr, hrefers⟩ := exists_refOf? hx (hms m List.mem_cons_self)
    have hcons : (m :: ms).filterMap (fun m => x.refOf? m.id) =
        r :: ms.filterMap fun m => x.refOf? m.id := by
      simp [hr]
    rw [hcons]
    exact .cons hrefers (ih fun m' hm' => hms m' (List.mem_cons_of_mem _ hm'))

theorem ascending_of_refers (hx : WellFormed x) {refs : List MethodRef}
    (h : List.Forall₂ (Refers x) (x.linked near far id) refs) :
    refs.Pairwise fun r s => r.methodId < s.methodId :=
  ascending_of_map_eq (map_eq_of_forall₂ h fun _ _ => Refers.methodId) (ascending_linked hx)

/-- Each call out of a method leads to a linked method, and back. -/
theorem mem_refs_iff (hfar : ∀ c ∈ x.calls, far c ∈ x.methods.map Method.id) {r : MethodRef} :
    (r ∈ (x.calls.filter fun c => near c = id).filterMap fun c => x.refOf? (far c)) ↔
      r ∈ (x.linked near far id).filterMap fun m => x.refOf? m.id := by
  simp only [List.mem_filterMap, List.mem_filter, decide_eq_true_eq, mem_linked]
  constructor
  · -- the far end is stored, so the call is one of those that link its method
    rintro ⟨c, ⟨hc, hnear⟩, hr⟩
    obtain ⟨m, hm, hid⟩ := List.mem_map.1 (hfar c hc)
    exact ⟨m, ⟨hm, c, hc, hnear, hid.symm⟩, by rw [hid]; exact hr⟩
  · rintro ⟨m, ⟨-, c, hc, hnear, hid⟩, hr⟩
    exact ⟨c, ⟨hc, hnear⟩, by rw [hid]; exact hr⟩

/-- **The neighbours over the calls of a method are its linked methods**, each of them once. -/
theorem groupRefs_linked (hx : WellFormed x)
    (hfar : ∀ c ∈ x.calls, far c ∈ x.methods.map Method.id) (id : RowId) :
    List.Forall₂ (Refers x) (x.linked near far id)
      (groupRefs ((x.calls.filter fun c => near c = id).filterMap fun c => x.refOf? (far c))) := by
  set found := (x.calls.filter fun c => near c = id).filterMap fun c => x.refOf? (far c)
  have hrefers := refers_filterMap hx fun m (hm : m ∈ x.linked near far id) => (mem_linked.1 hm).1
  have hsorted := ascending_of_refers hx hrefers
  -- among the neighbours an id occurs once
  have hunique : ∀ r ∈ found, ∀ s ∈ found, s.methodId = r.methodId → s = r := by
    intro r hr s hs he
    have hnodup := (List.pairwise_map.2 hsorted).imp fun h => Int.ne_of_lt h
    exact List.inj_on_of_nodup_map hnodup ((mem_refs_iff hfar).1 hs) ((mem_refs_iff hfar).1 hr) he
  have hgroup : groupRefs found = (x.linked near far id).filterMap fun m => x.refOf? m.id :=
    eq_of_ascending (pairwise_groupRefs _) hsorted fun r =>
      (mem_groupRefs hunique r).trans (mem_refs_iff hfar)
  rw [hgroup]
  exact hrefers

theorem ensureMethod_of_mem (hx : WellFormed x) (hm : m ∈ x.methods) :
    x.ensureMethod m.id = .ok () := by
  unfold ensureMethod
  rw [methodById?_of_mem hx hm]

/-- **The callees of a stored method** are the methods that its calls lead to. -/
theorem callees_linked (hx : WellFormed x) (hm : m ∈ x.methods) :
    ∃ refs, x.callees m.id = .ok refs ∧
      List.Forall₂ (Refers x) (x.linked MethodCall.callerId MethodCall.calleeId m.id) refs := by
  refine ⟨_, ?_, groupRefs_linked hx (fun c hc => (hx.callEnds c hc).2) m.id⟩
  unfold callees
  rw [ensureMethod_of_mem hx hm]
  rfl

/-- **The callers of a stored method** are the methods whose calls lead to it. -/
theorem callers_linked (hx : WellFormed x) (hm : m ∈ x.methods) :
    ∃ refs, x.callers m.id = .ok refs ∧
      List.Forall₂ (Refers x) (x.linked MethodCall.calleeId MethodCall.callerId m.id) refs := by
  refine ⟨_, ?_, groupRefs_linked hx (fun c hc => (hx.callEnds c hc).1) m.id⟩
  unfold callers
  rw [ensureMethod_of_mem hx hm]
  rfl

end Index

end CallIndex
