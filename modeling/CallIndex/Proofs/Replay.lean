import CallIndex.Proofs.AllOrNothing
import CallIndex.Proofs.History

/-!
# A list of batches again

Run a list of batches, and run it again on what it left. On the way the second run takes bodies back
to older texts, but it looks up only what the first one stored, so it ends where it began.

* `WrittenEach`: a list of batches that are all written, with the reports and the new edges.
* `SameEntities`: two indexes with the same rows in every table but the calls. A run sees of an index
  only these rows (`WrittenEach.congr`).
* `Holds`: an index that has every row which a batch could add. On such an index a run only changes
  texts (`WrittenEach.replay`).
* `Settled`: an index that holds every batch of a list and has the text of each last input. A run leads
  there (`WrittenEach.settled`).
* `Settled.replay`: **a run of settled batches leaves every row and only adds calls**, the same ones
  each time.
-/

namespace CallIndex

namespace Method

theorem revise_append (ms ns : List MethodInput) (r : Method) :
    r.revise (ms ++ ns) = (r.revise ms).revise ns := List.foldl_append

end Method

/-- A method that some inputs leave, and that only they speak of or the inputs before them leave too,
is left by all of them. -/
theorem revise_append_settled {ms ns : List MethodInput} {r : Method} (hns : r.revise ns = r)
    (hms : lastWith r.signature ns = none → r.revise ms = r) : r.revise (ms ++ ns) = r := by
  rw [Method.revise_append]
  cases hlast : lastWith r.signature ns with
  | none => rw [hms hlast, hns]
  | some i =>
    -- the last input gives all that inputs can change
    have hr : r.withText i = r := by rw [revise_eq_last, hlast] at hns; exact hns
    rw [revise_eq_last ns, (Method.revise_links ms r).2.2.2, hlast]
    show (r.revise ms).withText i = r
    rw [revise_eq_last ms r]
    cases lastWith r.signature ms with
    | none => exact hr
    | some j => exact hr

namespace Index

/-- Two indexes with the same projects, documents, classes and methods. -/
structure SameEntities (x y : Index) : Prop where
  projects : x.projects = y.projects
  documents : x.documents = y.documents
  classes : x.classes = y.classes
  methods : x.methods = y.methods

namespace SameEntities

variable {x y z : Index}

theorem refl (x : Index) : SameEntities x x := ⟨rfl, rfl, rfl, rfl⟩

theorem trans (h : SameEntities x y) (h' : SameEntities y z) : SameEntities x z :=
  ⟨h.projects.trans h'.projects, h.documents.trans h'.documents, h.classes.trans h'.classes,
    h.methods.trans h'.methods⟩

end SameEntities

/-- Batches written one after the other, with their reports and the ends of the edges that they
add. -/
inductive WrittenEach : Index → List Batch → Index → List Report → List (RowId × RowId) → Prop where
  | nil (x : Index) : WrittenEach x [] x [] []
  | cons {x y z : Index} {b : Batch} {bs : List Batch} {r : Report} {rs : List Report}
      {es : List (RowId × RowId)} (hb : b.Valid) (h : Written x b y r)
      (hrest : WrittenEach y bs z rs es) :
      WrittenEach x (b :: bs) z (r :: rs) (y.edges b.calls ++ es)

variable {refuse : Refusal} {x y z x' y' : Index} {b : Batch} {r r' : Report} {bs cs : List Batch}
  {rs rs' : List Report} {es es' : List (RowId × RowId)}

/-! ## Runs -/

/-- A list of batches that succeeds is written. -/
theorem writtenEach_of_ingestAll (hx : WellFormed x) (h : x.ingestAll refuse bs = (y, .ok rs)) :
    ∃ es, WrittenEach x bs y rs es := by
  have heach : ingestEach refuse x bs = (y, .ok rs) := by
    unfold ingestAll at h
    split at h
    · cases h
    · exact h
  clear h
  induction bs generalizing x rs with
  | nil => cases heach; exact ⟨[], .nil _⟩
  | cons b bs ih =>
    obtain ⟨z, r, rest, hb, hrest, rfl⟩ := ingestEach_cons_ok heach
    obtain ⟨hvalid, hw⟩ := written_of_ingest hx hb
    obtain ⟨es, hes⟩ := ih (hw.wellFormed hx hvalid) hrest
    exact ⟨_, .cons hvalid hw hes⟩

namespace WrittenEach

theorem valid (h : WrittenEach x bs y rs es) : ∀ b ∈ bs, b.Valid := by
  induction h with
  | nil => simp
  | cons hb _ _ ih => exact List.forall_mem_cons.2 ⟨hb, ih⟩

theorem wellFormed (h : WrittenEach x bs y rs es) (hx : WellFormed x) : WellFormed y := by
  induction h with
  | nil => exact hx
  | cons hb hw _ ih => exact ih (hw.wellFormed hx hb)

/-- The first part of a list is written before the second. -/
theorem split (h : WrittenEach x (bs ++ cs) y rs es) :
    ∃ z rs₁ rs₂ es₁ es₂, WrittenEach x bs z rs₁ es₁ ∧ WrittenEach z cs y rs₂ es₂ ∧
      es = es₁ ++ es₂ := by
  induction bs generalizing x rs es with
  | nil => exact ⟨x, [], rs, [], es, .nil x, h, rfl⟩
  | cons b bs ih =>
    cases h with
    | cons hb hw hrest =>
      obtain ⟨z, rs₁, rs₂, es₁, es₂, h₁, h₂, rfl⟩ := ih hrest
      exact ⟨z, _, rs₂, _, es₂, .cons hb hw h₁, h₂, (List.append_assoc _ _ _).symm⟩

/-- A run adds its edges behind the calls that are there. -/
theorem calls (h : WrittenEach x bs y rs es) :
    ∃ added, y.calls = x.calls ++ added ∧ added.map ends = es := by
  induction h with
  | nil => exact ⟨[], (List.append_nil _).symm, rfl⟩
  | @cons x y z b _ _ _ _ _ hw _ ih =>
    obtain ⟨first, hfirst, hends⟩ := appendEdges_eq x.calls (y.edges b.calls)
    obtain ⟨rest, hrest, hends'⟩ := ih
    refine ⟨first ++ rest, ?_, by rw [List.map_append, hends, hends']⟩
    rw [hrest, hw.calls, hfirst, List.append_assoc]

theorem ends_calls (h : WrittenEach x bs y rs es) : y.calls.map ends = x.calls.map ends ++ es := by
  obtain ⟨added, hadded, rfl⟩ := h.calls
  rw [hadded, List.map_append]

end WrittenEach

/-! ## What a run sees -/

namespace Written

/-- **A batch sees only the rows of the entities**, and its calls change none of them. From the same
rows, and with any calls, it makes the same rows, and all that it reports of them is the same. -/
theorem congr_entities {cs : List CallInput} (h : Written x b y r)
    (h' : Written x' { b with calls := cs } y' r') (hy : WellFormed y) (hs : SameEntities x x') :
    SameEntities y y' ∧ r' = { r with callsInserted := r'.callsInserted, skipped := r'.skipped } := by
  have hprojects : y'.projects = y.projects := by rw [h.projects, h'.projects, hs.projects]
  have hproject := h.projectId_congr h' hy hprojects
  have hdocuments : y'.documents = y.documents := by
    rw [h.documents, h'.documents, hs.documents, hproject]
  have hdocument := h.documentId_congr h' hy hdocuments
  have hclasses : y'.classes = y.classes := by rw [h.classes, h'.classes, hs.classes, hdocument]
  have hlisted := listedClass?_congr hclasses
  have hmethods : y'.methods = y.methods := by rw [h.methods, h'.methods, hs.methods, hlisted]
  have hcount : r'.classes = r.classes := h'.classCount.trans h.classCount.symm
  have hinserted : r'.methodsInserted = r.methodsInserted := by
    rw [h.methodsInserted, h'.methodsInserted, hs.methods, hlisted]
  have hupdated : r'.methodsUpdated = r.methodsUpdated := by
    rw [h.methodsUpdated, h'.methodsUpdated, hs.methods, hlisted]
  refine ⟨⟨hprojects.symm, hdocuments.symm, hclasses.symm, hmethods.symm⟩, ?_⟩
  cases r
  cases r'
  simp_all

/-- With the same calls it makes the same edges and reports the same. -/
theorem congr (h : Written x b y r) (h' : Written x' b y' r') (hy : WellFormed y)
    (hs : SameEntities x x') : SameEntities y y' ∧ r = r' := by
  obtain ⟨hsame, hreport⟩ := h.congr_entities h' hy hs
  have hlisted := listedClass?_congr hsame.classes.symm
  have hcalls := callEffect_congr hsame.methods.symm
  have hedges : r'.callsInserted = r.callsInserted := by
    rw [h.callsInserted, h'.callsInserted, hcalls]
  have hskipped : r'.skipped = r.skipped := by
    rw [h.skipped, h'.skipped, hs.methods, hlisted, hcalls]
  rw [hedges, hskipped] at hreport
  exact ⟨hsame, hreport.symm⟩

end Written

/-- **So does a list of batches.** -/
theorem WrittenEach.congr (h : WrittenEach x bs y rs es) (h' : WrittenEach x' bs y' rs' es')
    (hx : WellFormed x) (hs : SameEntities x x') :
    SameEntities y y' ∧ rs = rs' ∧ es = es' := by
  induction h generalizing x' rs' es' with
  | nil => cases h'; exact ⟨hs, rfl, rfl⟩
  | cons hb hw hrest ih =>
    cases h' with
    | cons hb' hw' hrest' =>
      have hz := hw.wellFormed hx hb
      obtain ⟨hsame, rfl⟩ := hw.congr hw' hz hs
      obtain ⟨hend, rfl, rfl⟩ := ih hrest' hz hsame
      exact ⟨hend, rfl, by rw [edges_congr hsame.methods]⟩

/-! ## What a run leaves -/

/-- The index has every row that a batch could add. -/
structure Holds (x : Index) (b : Batch) : Prop where
  project : b.project ∈ x.projects.map Project.name
  document : b.document ∈ x.documents.map Document.path
  classes : ∀ c ∈ b.classes, c ∈ x.classes.map Class.name
  methods : ∀ s ∈ b.ownSignatures, s ∈ signatures x.methods

/-- The index has every row that the batches could add, and each method has the text of its last
input. -/
structure Settled (bs : List Batch) (x : Index) : Prop where
  holds : ∀ b ∈ bs, x.Holds b
  texts : ∀ m ∈ x.methods, m.revise (bs.flatMap Batch.methods) = m

namespace Written

/-- The signatures of a batch that have a place are those whose class it lists. -/
theorem mem_ownSignatures (h : Written x b y r) (hx : WellFormed x) {s : String} :
    s ∈ b.ownSignatures ↔ s ∈ b.methods.map MethodInput.signature ∧
      (place (y.listedClass? b.classes) s).isOk = true := by
  unfold Batch.ownSignatures
  rw [List.mem_filter, h.isOk_place hx]

theorem holds (h : Written x b y r) (hx : WellFormed x) : y.Holds b := by
  refine ⟨?_, ?_, h.class_mem hx, ?_⟩
  · obtain ⟨p, hp, hname, -⟩ := h.project
    exact hname ▸ List.mem_map_of_mem hp
  · obtain ⟨d, hd, hpath, -⟩ := h.document
    exact hpath ▸ List.mem_map_of_mem hd
  · intro s hs
    rw [h.methods]
    exact (mem_signatures_putMethods hx.methods.distinct b.methods s).2
      (Or.inr ((h.mem_ownSignatures hx).1 hs))

/-- What an index holds, it holds after any batch. -/
theorem holds_mono (h : Written x b y r) (hx : WellFormed x) {a : Batch} (ha : x.Holds a) :
    y.Holds a := by
  refine ⟨(h.isPrefix_projects.map _).subset ha.project,
    (h.isPrefix_documents.map _).subset ha.document,
    fun c hc => (h.isPrefix_classes.map _).subset (ha.classes c hc), ?_⟩
  intro s hs
  rw [h.methods]
  exact (mem_signatures_putMethods hx.methods.distinct b.methods s).2 (Or.inl (ha.methods s hs))

/-- **A batch that adds no row** changes the texts of the methods that it speaks of. -/
theorem replay (h : Written x b y r) (hx : WellFormed x) (hb : x.Holds b) :
    y.projects = x.projects ∧ y.documents = x.documents ∧ y.classes = x.classes ∧
      y.methods = x.methods.map (Method.revise b.methods) := by
  refine ⟨?_, ?_, ?_, ?_⟩
  · rw [h.projects]; exact Keying.intern_of_mem hb.project
  · rw [h.documents]; exact Keying.intern_of_mem hb.document
  · rw [h.classes]; exact Keying.intern_of_subset hb.classes
  · obtain ⟨added, hrows, hadd⟩ :=
      putMethods_closed (y.listedClass? b.classes) x.methods b.methods
    have hnil : added = [] := by
      rw [List.eq_nil_iff_forall_not_mem]
      intro s hs
      obtain ⟨hok, hnew, hin⟩ := hadd s hs
      exact hnew (hb.methods _ ((h.mem_ownSignatures hx).2 ⟨hin, by rw [hok]; rfl⟩))
    rw [h.methods, hrows, hnil, List.append_nil]

/-- Inputs that leave every method still do so with those of the next batch behind them. -/
theorem texts (h : Written x b y r) {ms : List MethodInput}
    (hx : ∀ m ∈ x.methods, m.revise ms = m) :
    ∀ m ∈ y.methods, m.revise (ms ++ b.methods) = m := by
  intro m hm
  rw [h.methods] at hm
  obtain ⟨hrow, hrevise⟩ := mem_putMethods hm
  refine revise_append_settled hrevise ?_
  intro hlast
  -- a method that the batch does not speak of was there before
  rcases hrow with ⟨s, hs, rfl⟩ | ⟨hin, -⟩
  · rw [(Method.revise_links b.methods s).2.2.2] at hlast
    have hsame : s.revise b.methods = s := by rw [revise_eq_last, hlast]
    rw [hsame]
    exact hx s hs
  · obtain ⟨i, hi⟩ := exists_lastWith hin
    rw [hlast] at hi
    cases hi

end Written

theorem leastId_map_revise (ms : List MethodInput) (rows : List Method) :
    leastId (rows.map (Method.revise ms)) = (leastId rows).map (Method.revise ms) := by
  induction rows with
  | nil => rfl
  | cons m rows ih =>
    rw [List.map_cons, leastId, leastId, ih]
    cases leastId rows with
    | none => rfl
    | some other =>
      simp only [Option.map_some, (Method.revise_links ms _).1]
      split <;> rfl

theorem find?_signature_revise (ms : List MethodInput) (rows : List Method) (s : String) :
    (rows.map (Method.revise ms)).find? (fun m => m.signature = s) =
      (rows.find? fun m => m.signature = s).map (Method.revise ms) := by
  have hsame : (fun m => decide (m.signature = s)) ∘ Method.revise ms =
      fun m => decide (m.signature = s) := by
    funext m
    simp [(Method.revise_links ms m).2.2.2]
  rw [List.find?_map, hsame]

/-- Look-ups by signature do not hang on the texts of methods. -/
theorem methodBySignature?_revise {ms : List MethodInput}
    (h : y.methods = x.methods.map (Method.revise ms)) (s : String) :
    y.methodBySignature? s = (x.methodBySignature? s).map (Method.revise ms) := by
  unfold methodBySignature?
  rw [h, find?_signature_revise]

theorem resolveCallee_revise {ms : List MethodInput}
    (h : y.methods = x.methods.map (Method.revise ms)) (s : String) :
    y.resolveCallee s = (x.resolveCallee s).map (Method.revise ms) := by
  have hcandidate : isCandidate s ∘ Method.revise ms = isCandidate s := by
    funext m
    simp [isCandidate, (Method.revise_links ms m).2.2.2]
  unfold resolveCallee
  dsimp only
  rw [h, List.filter_map, hcandidate, find?_signature_revise, leastId_map_revise]
  cases (x.methods.filter (isCandidate s)).find? (fun m => m.signature = s) <;> rfl

/-- Nor do edges. -/
theorem edge_revise {ms : List MethodInput} (h : y.methods = x.methods.map (Method.revise ms)) :
    y.edge = x.edge := by
  funext c
  unfold edge
  rw [methodBySignature?_revise h, resolveCallee_revise h]
  cases x.methodBySignature? c.caller <;> cases x.resolveCallee c.callee <;>
    simp [(Method.revise_links ms _).1]

namespace WrittenEach

theorem holds_mono (h : WrittenEach x bs y rs es) (hx : WellFormed x) {a : Batch}
    (ha : x.Holds a) : y.Holds a := by
  induction h with
  | nil => exact ha
  | cons hb hw _ ih => exact ih (hw.wellFormed hx hb) (hw.holds_mono hx ha)

theorem holds (h : WrittenEach x bs y rs es) (hx : WellFormed x) : ∀ b ∈ bs, y.Holds b := by
  induction h with
  | nil => simp
  | cons hb hw hrest ih =>
    have hz := hw.wellFormed hx hb
    exact List.forall_mem_cons.2 ⟨hrest.holds_mono hz (hw.holds hx), ih hz⟩

/-- **Batches that add no row** change the texts of methods, and make the edges of the rows that are
there. -/
theorem replay (h : WrittenEach x bs y rs es) (hx : WellFormed x) (hbs : ∀ b ∈ bs, x.Holds b) :
    y.projects = x.projects ∧ y.documents = x.documents ∧ y.classes = x.classes ∧
      y.methods = x.methods.map (Method.revise (bs.flatMap Batch.methods)) ∧
      es = bs.flatMap fun b => x.edges b.calls := by
  induction h with
  | nil =>
    have hid : Method.revise [] = id := rfl
    exact ⟨rfl, rfl, rfl, by simp [hid], rfl⟩
  | @cons x z y b bs _ _ es hb hw hrest ih =>
    obtain ⟨hp, hd, hc, hm⟩ := hw.replay hx (hbs b List.mem_cons_self)
    obtain ⟨hp', hd', hc', hm', hes⟩ := ih (hw.wellFormed hx hb)
      fun a ha => hw.holds_mono hx (hbs a (List.mem_cons_of_mem _ ha))
    have hedges : z.edges = x.edges := by
      funext cs
      unfold edges
      rw [edge_revise hm]
    refine ⟨hp'.trans hp, hd'.trans hd, hc'.trans hc, ?_, ?_⟩
    · have happ : Method.revise (b.methods ++ bs.flatMap Batch.methods) =
          Method.revise (bs.flatMap Batch.methods) ∘ Method.revise b.methods :=
        funext fun m => Method.revise_append _ _ m
      rw [hm', hm, List.map_map, List.flatMap_cons, happ]
    · rw [hes, hedges, List.flatMap_cons]

/-- After a run each method has the text of its last input, if the list has one. -/
theorem texts (h : WrittenEach x bs y rs es) {ms : List MethodInput}
    (hx : ∀ m ∈ x.methods, m.revise ms = m) :
    ∀ m ∈ y.methods, m.revise (ms ++ bs.flatMap Batch.methods) = m := by
  induction h generalizing ms with
  | nil => simpa using hx
  | cons _ hw _ ih =>
    rw [List.flatMap_cons, ← List.append_assoc]
    exact ih (hw.texts hx)

/-- **A run settles its batches.** -/
theorem settled (h : WrittenEach x bs y rs es) (hx : WellFormed x) : Settled bs y :=
  have htexts : ∀ m ∈ y.methods, m.revise ([] ++ bs.flatMap Batch.methods) = m :=
    h.texts fun _ _ => rfl
  ⟨h.holds hx, htexts⟩

end WrittenEach

/-- **A run of settled batches** leaves all rows of the entities, and makes the edges of those
rows. -/
theorem Settled.replay (hbs : Settled bs x) (h : WrittenEach x bs y rs es) (hx : WellFormed x) :
    SameEntities y x ∧ es = bs.flatMap fun b => x.edges b.calls := by
  obtain ⟨hp, hd, hc, hm, hes⟩ := h.replay hx hbs.holds
  refine ⟨⟨hp, hd, hc, ?_⟩, hes⟩
  calc y.methods = x.methods.map (Method.revise (bs.flatMap Batch.methods)) := hm
    _ = x.methods.map id := List.map_congr_left hbs.texts
    _ = x.methods := List.map_id _

end Index

end CallIndex
