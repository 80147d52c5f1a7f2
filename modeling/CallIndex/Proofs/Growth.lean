import CallIndex.Proofs.Invariant

/-!
# Rows stay

While it is not cleared, an index only grows. New rows go behind the old ones, and of an old row only
the text and the lines of a method ever change.

* `Method.bare`: a method without its text and its lines.
* `Index.Grows`: each table begins with the rows of an older index, texts aside. One batch grows an
  index (`Written.grows`), and so does every operation but a clear, finished or failed
  (`grows_run`).
* `Index.Keeps`: what follows for a reader of the older index: each id still finds its row, and no
  table has become shorter.
* `Index.rows_kept`: **an ingest touches only the texts that it names, and without a clear an id keeps
  its meaning.**
-/

namespace CallIndex

namespace Method

/-- A method without its text and its lines: its id, its class, its name and its signature. -/
def bare (m : Method) : Method := { m with body := "", startLine := none, endLine := none }

theorem bare_eq_iff {m k : Method} :
    m.bare = k.bare ↔
      m.id = k.id ∧ m.classId = k.classId ∧ m.name = k.name ∧ m.signature = k.signature := by
  cases m
  cases k
  simp [bare]

@[simp] theorem bare_revise (ms : List MethodInput) (m : Method) : (m.revise ms).bare = m.bare :=
  bare_eq_iff.2 (revise_links ms m)

end Method

namespace Index

variable {refuse : Refusal} {x y z : Index} {b : Batch} {r : Report}

/-- **An index grows**: each table begins with the rows of the older one, and the methods with the old
methods, whatever their texts are now. -/
structure Grows (x y : Index) : Prop where
  projects : x.projects <+: y.projects
  documents : x.documents <+: y.documents
  classes : x.classes <+: y.classes
  methods : x.methods.map Method.bare <+: y.methods.map Method.bare
  calls : x.calls <+: y.calls

namespace Grows

theorem refl (x : Index) : Grows x x :=
  ⟨List.prefix_rfl, List.prefix_rfl, List.prefix_rfl, List.prefix_rfl, List.prefix_rfl⟩

theorem trans (h : Grows x y) (h' : Grows y z) : Grows x z :=
  ⟨h.projects.trans h'.projects, h.documents.trans h'.documents, h.classes.trans h'.classes,
    h.methods.trans h'.methods, h.calls.trans h'.calls⟩

/-- An old method is there, perhaps with another text. -/
theorem exists_method (h : Grows x y) {m : Method} (hm : m ∈ x.methods) :
    ∃ k ∈ y.methods, k.bare = m.bare :=
  List.mem_map.1 (h.methods.subset (List.mem_map_of_mem hm))

end Grows

/-! ## One batch -/

namespace Written

/-- **A written batch grows an index.** -/
theorem grows (h : Written x b y r) : Grows x y := by
  refine ⟨h.isPrefix_projects, h.isPrefix_documents, h.isPrefix_classes, ?_, ?_⟩
  · obtain ⟨added, hrows, -⟩ := putMethods_closed (y.listedClass? b.classes) x.methods b.methods
    have hbare : Method.bare ∘ Method.revise b.methods = Method.bare :=
      funext fun m => Method.bare_revise b.methods m
    rw [h.methods, hrows, List.map_map, hbare, List.map_append]
    exact List.prefix_append _ _
  · obtain ⟨added, hcalls, -⟩ := appendEdges_eq x.calls (y.edges b.calls)
    rw [h.calls, hcalls]
    exact List.prefix_append _ _

/-- **The text of an old method** is that of the last input of its signature, and stays if there is
none. -/
theorem text (h : Written x b y r) {m : Method} (hm : m ∈ x.methods) :
    match lastWith m.signature b.methods with
      | some i => m.withText i ∈ y.methods
      | none => m ∈ y.methods := by
  have hrevised : m.revise b.methods ∈ y.methods := by
    obtain ⟨added, hrows, -⟩ := putMethods_closed (y.listedClass? b.classes) x.methods b.methods
    rw [h.methods, hrows]
    exact List.mem_map_of_mem (List.mem_append_left _ hm)
  rw [revise_eq_last] at hrevised
  cases hlast : lastWith m.signature b.methods <;> rw [hlast] at hrevised <;> exact hrevised

end Written

/-! ## Operations -/

/-- **Every operation but a clear grows an index**, finished or failed. -/
theorem grows_apply (hx : WellFormed x) (refuse : Refusal) {op : Operation} (hop : op ≠ .clear) :
    Grows x (op.apply refuse x) := by
  have hstart : WellFormed x ∧ Grows x x := ⟨hx, .refl x⟩
  have hstep : ∀ y b, WellFormed y ∧ Grows x y →
      WellFormed (y.ingest refuse b).1 ∧ Grows x (y.ingest refuse b).1 :=
    ingest_induct fun hw hy => hy.trans hw.grows
  cases op with
  | ingest b => exact (hstep x b hstart).2
  | ingestAll bs => exact (ingestAll_induct hstep bs hstart).2
  | ingestJson text =>
    show Grows x (x.ingestJson refuse text).1
    unfold ingestJson
    split
    · exact .refl x
    · exact (ingestAll_induct hstep _ hstart).2
  | clear => exact absurd rfl hop

/-- So do any number of them. -/
theorem grows_run (hx : WellFormed x) {ops : List (Refusal × Operation)}
    (hops : ∀ op ∈ ops, op.2 ≠ .clear) : Grows x (x.run ops) := by
  induction ops generalizing x with
  | nil => exact .refl x
  | cons op ops ih =>
    have hstep := grows_apply hx op.1 (hops op List.mem_cons_self)
    exact hstep.trans (ih (apply_wellFormed hx op.1 op.2)
      fun op' hop' => hops op' (List.mem_cons_of_mem _ hop'))

/-! ## Ids -/

/-- **What an index keeps of an older one**: each id that the older one had still finds its row, a
method perhaps with another text, and no table has become shorter. -/
structure Keeps (x y : Index) : Prop where
  project : ∀ p ∈ x.projects, y.projectById? p.id = some p
  document : ∀ d ∈ x.documents, y.documentById? d.id = some d
  ofClass : ∀ c ∈ x.classes, y.classById? c.id = some c
  method : ∀ m ∈ x.methods, ∃ k, y.methodById? m.id = some k ∧ k.bare = m.bare
  call : ∀ c ∈ x.calls, y.calls.find? (fun k => k.id = c.id) = some c
  projectCount : x.stats.projects ≤ y.stats.projects
  documentCount : x.stats.documents ≤ y.stats.documents
  classCount : x.stats.classes ≤ y.stats.classes
  methodCount : x.stats.methods ≤ y.stats.methods
  callCount : x.stats.methodCalls ≤ y.stats.methodCalls

/-- The id of a call finds it. -/
theorem find?_callId (hx : WellFormed x) {c : MethodCall} (hc : c ∈ x.calls) :
    x.calls.find? (fun k => k.id = c.id) = some c := by
  have hd : (x.calls.map MethodCall.id).Nodup := hx.callIds ▸ nodup_firstIds _
  refine find?_eq_some_of_unique hc (by simp) ?_
  intro k hk hid
  exact List.inj_on_of_nodup_map hd hk hc (by simpa using hid)

/-- **In a well-formed index that has grown, ids keep their meaning**, since no two rows share one. -/
theorem Grows.keeps (h : Grows x y) (hy : WellFormed y) : Keeps x y where
  project p hp := hy.projects.find?_id (h.projects.subset hp)
  document d hd := hy.documents.find?_id (h.documents.subset hd)
  ofClass c hc := hy.classes.find?_id (h.classes.subset hc)
  method m hm := by
    obtain ⟨k, hk, hbare⟩ := h.exists_method hm
    have hid : k.id = m.id := (Method.bare_eq_iff.1 hbare).1
    exact ⟨k, hid ▸ hy.methods.find?_id hk, hbare⟩
  call c hc := find?_callId hy (h.calls.subset hc)
  projectCount := h.projects.length_le
  documentCount := h.documents.length_le
  classCount := h.classes.length_le
  methodCount := by
    have hlength := h.methods.length_le
    rwa [List.length_map, List.length_map] at hlength
  callCount := h.calls.length_le

theorem Reachable.keeps_run (hx : Reachable x) {ops : List (Refusal × Operation)}
    (hops : ∀ op ∈ ops, op.2 ≠ .clear) : Keeps x (x.run ops) :=
  (grows_run hx.wellFormed hops).keeps (hx.run ops).wellFormed

/-- **Rows are kept.** A batch that is written leaves every row in its place, the calls included. Of
the methods only those change whose signature it has, and they take the text and the lines of its last
input; the ids in its report are those of its project and its document. After any operations without a
clear, finished or failed, an id denotes the row that it denoted before, and no table is shorter. -/
theorem rows_kept (hx : Reachable x) :
    (∀ refuse b y r, x.ingest refuse b = (y, .ok r) →
      Grows x y ∧
      (∀ m ∈ x.methods, match lastWith m.signature b.methods with
        | some i => m.withText i ∈ y.methods
        | none => m ∈ y.methods) ∧
      (∃ p ∈ y.projects, p.name = b.project ∧ p.id = r.projectId) ∧
      ∃ d ∈ y.documents, d.path = b.document ∧ d.id = r.documentId) ∧
    ∀ ops : List (Refusal × Operation), (∀ op ∈ ops, op.2 ≠ .clear) → Keeps x (x.run ops) := by
  constructor
  · intro refuse b y r h
    obtain ⟨-, hw⟩ := written_of_ingest hx.wellFormed h
    exact ⟨hw.grows, fun m hm => hw.text hm, hw.project, hw.document⟩
  · intro ops hops
    exact hx.keeps_run hops

/-- A batch of another project and another document takes up a stored class and gives one of its
methods two texts. Then a batch fails, and one more claims the document for a third project. -/
theorem rows_kept_disputed :
    let first : Batch := ⟨"demo", "A.java", ["A"],
      [⟨"void A.f()", "one", some 1, some 3⟩, ⟨"void A.g()", "kept", some 5, none⟩],
      [⟨"void A.f()", "void A.g"⟩]⟩
    let b : Batch := ⟨"other", "B.java", ["B", "A"],
      [⟨"void A.f()", "two", some 7, none⟩, ⟨"void A.f()", "three", none, some 9⟩],
      [⟨"void A.g()", "void A.f"⟩]⟩
    let x := run .empty [(.never, .ingest first)]
    let y := (x.ingest .never b).1
    let z := x.run [(.never, .ingest b), (.always, .ingest first),
      (.never, .ingestAll [⟨"third", "A.java", [], [], []⟩])]
    x.ingest .never b = (y, .ok ⟨2, 2, 2, 0, 2, 1, []⟩) ∧ Grows x y ∧
      ⟨1, 1, "f()", "void A.f()", "three", none, some 9⟩ ∈ y.methods ∧
      ⟨2, 1, "g()", "void A.g()", "kept", some 5, none⟩ ∈ y.methods ∧ Keeps x z := by
  intro first b x y z
  obtain ⟨hingest, hrun⟩ := rows_kept (Reachable.empty.run [(.never, .ingest first)])
  have h : x.ingest .never b = (y, .ok ⟨2, 2, 2, 0, 2, 1, []⟩) := by decide +kernel
  obtain ⟨hgrows, htext, -, -⟩ := hingest _ _ _ _ h
  have hf := htext ⟨1, 1, "f()", "void A.f()", "one", some 1, some 3⟩ (by decide +kernel)
  have hg := htext ⟨2, 1, "g()", "void A.g()", "kept", some 5, none⟩ (by decide +kernel)
  have hlast : lastWith "void A.f()" b.methods =
      some ⟨"void A.f()", "three", none, some 9⟩ := by decide +kernel
  have hnone : lastWith "void A.g()" b.methods = none := by decide +kernel
  rw [hlast] at hf
  rw [hnone] at hg
  refine ⟨h, hgrows, hf, hg, hrun _ ?_⟩
  simp

end Index

end CallIndex
