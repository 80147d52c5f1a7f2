import CallIndex.Proofs.Invariant

/-!
# The same batch again

The first ingest of a batch looks its items up in an index that changes under it, the second one in an
index that stays as it is. They still agree. Whether a method is skipped hangs on its signature and on
the classes of the batch, and calls see only the methods that are there after the method step.

* `Index.Written.tables_again`: the second ingest leaves every table but the calls.
* `Index.Written.report_again`: what the second report says, from the first one.
* `Index.ingest_again`: both, for any two ingests in a row.
-/

namespace CallIndex

/-- What was inserted the first time is updated the second time. -/
theorem countP_inserted_again (es : List Index.MethodEffect) :
    (es.map Index.MethodEffect.again).countP (· = .inserted) = 0 := by
  rw [List.countP_eq_zero]
  intro e he
  obtain ⟨e', -, rfl⟩ := List.mem_map.1 he
  cases e' <;> simp [Index.MethodEffect.again]

theorem countP_updated_again (es : List Index.MethodEffect) :
    (es.map Index.MethodEffect.again).countP (· = .updated) =
      es.countP (· = .inserted) + es.countP (· = .updated) := by
  induction es with
  | nil => rfl
  | cons e es ih =>
    rw [List.map_cons, List.countP_cons, List.countP_cons, List.countP_cons, ih]
    cases e <;> simp [Index.MethodEffect.again] <;> omega

theorem skipped_again (es : List Index.MethodEffect) :
    (es.map Index.MethodEffect.again).filterMap Index.MethodEffect.skipped? =
      es.filterMap Index.MethodEffect.skipped? := by
  rw [List.filterMap_map]
  congr 1
  funext e
  cases e <;> rfl

namespace Index

variable {x y z : Index} {b : Batch} {r r' : Report}

namespace Written

/-- **The same batch again leaves the projects, the documents, the classes and the methods.** -/
theorem tables_again (h : Written x b y r) (h' : Written y b z r') (hx : WellFormed x) :
    z.projects = y.projects ∧ z.documents = y.documents ∧ z.classes = y.classes ∧
      z.methods = y.methods := by
  have hclasses : z.classes = y.classes := by
    rw [h'.classes]
    exact Keying.intern_of_subset (h.class_mem hx)
  refine ⟨?_, ?_, hclasses, ?_⟩
  · obtain ⟨p, hp, hname, -⟩ := h.project
    rw [h'.projects]
    exact Keying.intern_of_mem (hname ▸ List.mem_map_of_mem hp)
  · obtain ⟨d, hd, hpath, -⟩ := h.document
    rw [h'.documents]
    exact Keying.intern_of_mem (hpath ▸ List.mem_map_of_mem hd)
  · rw [h'.methods, listedClass?_congr hclasses, h.methods]
    exact putMethods_again hx.methods.distinct b.methods

/-- **The same batch again adds the same edges.** -/
theorem calls_again (h : Written x b y r) (h' : Written y b z r')
    (hmethods : z.methods = y.methods) :
    ∃ first second, y.calls = x.calls ++ first ∧ z.calls = y.calls ++ second ∧
      second.map ends = first.map ends := by
  obtain ⟨first, hfirst, hends⟩ := appendEdges_eq x.calls (y.edges b.calls)
  obtain ⟨second, hsecond, hends'⟩ := appendEdges_eq y.calls (z.edges b.calls)
  refine ⟨first, second, h.calls.trans hfirst, h'.calls.trans hsecond, ?_⟩
  rw [hends, hends', edges_congr hmethods]

/-- **The report of the same batch again**: what was inserted counts as updated, all else is as it
was. -/
theorem report_again (h : Written x b y r) (h' : Written y b z r') (hx : WellFormed x)
    (hy : WellFormed y) : r' = { r with
      methodsInserted := 0
      methodsUpdated := r.methodsInserted + r.methodsUpdated } := by
  obtain ⟨hprojects, hdocuments, hclasses, hmethods⟩ := h.tables_again h' hx
  have hproject := h.projectId_congr h' hy hprojects
  have hdocument := h.documentId_congr h' hy hdocuments
  have heffects : effects (z.listedClass? b.classes) y.methods b.methods =
      (effects (y.listedClass? b.classes) x.methods b.methods).map MethodEffect.again := by
    rw [listedClass?_congr hclasses, h.methods]
    exact effects_again hx.methods.distinct b.methods
  have hcalls : z.callEffect = y.callEffect := callEffect_congr hmethods
  have hinserted := h'.methodsInserted
  have hupdated := h'.methodsUpdated
  have hskipped := h'.skipped
  have hedges := h'.callsInserted
  rw [heffects, countP_inserted_again] at hinserted
  rw [heffects, countP_updated_again, ← h.methodsInserted, ← h.methodsUpdated] at hupdated
  rw [heffects, skipped_again, hcalls, ← h.skipped] at hskipped
  rw [hcalls, ← h.callsInserted] at hedges
  have hcount : r'.classes = r.classes := h'.classCount.trans h.classCount.symm
  cases r
  cases r'
  simp_all

end Written

/-- **Ingesting a batch again.** Let the same batch be written twice in a row, whatever else the
database refuses either time. The second time leaves the projects, the documents, the classes and the
methods row for row, adds the same edges once more, and reports the same, except that it inserts no
method and updates all that the first one inserted or updated. -/
theorem ingest_again {refuse refuse' : Refusal} (hx : Reachable x)
    (h : x.ingest refuse b = (y, .ok r)) (h' : y.ingest refuse' b = (z, .ok r')) :
    (z.projects = y.projects ∧ z.documents = y.documents ∧ z.classes = y.classes ∧
      z.methods = y.methods) ∧
    (∃ first second, y.calls = x.calls ++ first ∧ z.calls = y.calls ++ second ∧
      second.map ends = first.map ends) ∧
    r' = { r with
      methodsInserted := 0
      methodsUpdated := r.methodsInserted + r.methodsUpdated } := by
  have hwx := hx.wellFormed
  obtain ⟨hb, hw⟩ := written_of_ingest hwx h
  have hwy := hw.wellFormed hwx hb
  obtain ⟨-, hw'⟩ := written_of_ingest hwy h'
  have htables := hw.tables_again hw' hwx
  exact ⟨htables, hw.calls_again hw' htables.2.2.2, hw.report_again hw' hwx hwy⟩

/-- A batch that repeats a class and a signature, and that skips methods and calls. -/
theorem ingest_again_repeated :
    let other : Batch := ⟨"demo", "Old.java", ["Old"], [⟨"void Old.f()", "old", none, none⟩], []⟩
    let b : Batch := ⟨"demo", "A.java", ["A", "A"],
      [⟨"void A.f()", "first", some 1, some 2⟩, ⟨"g", "", none, none⟩,
        ⟨"void C.h()", "", none, none⟩, ⟨"void A.f()", "second", none, some 4⟩],
      [⟨"void A.f()", "void Old.f"⟩, ⟨"void C.h()", "void A.f"⟩]⟩
    let r : Report := ⟨1, 2, 1, 1, 1, 1, [.noClassPart "g", .classNotListed "void C.h()" "C",
      .callerNotIndexed "void C.h()" "void A.f"]⟩
    let x := Index.run .empty [(.never, .ingest other)]
    let y := (x.ingest .never b).1
    let z := (y.ingest .never b).1
    x.ingest .never b = (y, .ok r) ∧
      y.ingest .never b = (z, .ok { r with methodsInserted := 0, methodsUpdated := 2 }) ∧
      (z.projects = y.projects ∧ z.documents = y.documents ∧ z.classes = y.classes ∧
        z.methods = y.methods) ∧
      ∃ first second, y.calls = x.calls ++ first ∧ z.calls = y.calls ++ second ∧
        second.map ends = first.map ends := by
  intro other b r x y z
  have hx : Reachable x := Reachable.empty.run _
  have h : x.ingest .never b = (y, .ok r) := by decide +kernel
  have h' : y.ingest .never b =
      (z, .ok { r with methodsInserted := 0, methodsUpdated := 2 }) := by decide +kernel
  have hagain := ingest_again hx h h'
  exact ⟨h, h', hagain.1, hagain.2.1⟩

end Index

end CallIndex
