import CallIndex.Index.Decode
import CallIndex.Proofs.Journal
import CallIndex.Proofs.Required
import CallIndex.Proofs.Written

/-!
# The index stays well formed

* `Index.WellFormed`: keys are distinct and never blank, every reference names a row, and the ids of
  each table are 1, 2, 3, ….
* `Index.Reachable`: the indexes that ingests and clears can lead to from the empty one, whatever the
  database refuses on the way.
* `Written.wellFormed`, `clear_cases`: a written batch keeps an index well formed, and a clear leaves
  the same index or the empty one.
* `Index.run_wellFormed`: **after any operations, each with refusals of its own, the index is well
  formed**, whether they succeed or fail.
-/

namespace CallIndex.Index

/-- An index whose tables fit together. -/
structure WellFormed (x : Index) : Prop where
  projects : KeyedTable Project.id Project.name x.projects
  documents : KeyedTable Document.id Document.path x.documents
  classes : KeyedTable Class.id Class.name x.classes
  methods : KeyedTable Method.id Method.signature x.methods
  callIds : x.calls.map MethodCall.id = firstIds x.calls.length
  documentProject : ∀ d ∈ x.documents, d.projectId ∈ x.projects.map Project.id
  classDocument : ∀ c ∈ x.classes, c.documentId ∈ x.documents.map Document.id
  methodClass : ∀ m ∈ x.methods, m.classId ∈ x.classes.map Class.id
  callEnds : ∀ c ∈ x.calls,
    c.callerId ∈ x.methods.map Method.id ∧ c.calleeId ∈ x.methods.map Method.id

/-- A call that may change an index. -/
inductive Operation where
  | ingest (b : Batch)
  | ingestAll (bs : List Batch)
  | ingestJson (text : String)
  | clear

/-- The index after an operation, finished or failed. -/
def Operation.apply (refuse : Refusal) (x : Index) : Operation → Index
  | ingest b => (x.ingest refuse b).1
  | ingestAll bs => (x.ingestAll refuse bs).1
  | ingestJson text => (x.ingestJson refuse text).1
  | clear => (x.clear refuse).1

/-- The index after some operations, each with what the database refuses during it. -/
def run (x : Index) (ops : List (Refusal × Operation)) : Index :=
  ops.foldl (fun x op => op.2.apply op.1 x) x

/-- An index that operations lead to from the empty one. -/
inductive Reachable : Index → Prop where
  | empty : Reachable .empty
  | apply {x : Index} (hx : Reachable x) (refuse : Refusal) (op : Operation) :
      Reachable (op.apply refuse x)

theorem Reachable.run {x : Index} (hx : Reachable x) (ops : List (Refusal × Operation)) :
    Reachable (x.run ops) := by
  induction ops generalizing x with
  | nil => exact hx
  | cons op ops ih => exact ih (hx.apply op.1 op.2)

variable {refuse : Refusal} {x y : Index} {b : Batch} {r : Report}

/-! ## A written batch -/

theorem place_ok {find : String → Option RowId} {signature name : String} {classId : RowId}
    (h : place find signature = .ok (classId, name)) :
    ∃ parts, splitSignature signature = some parts ∧ find parts.owner = some classId ∧
      parts.name = name := by
  unfold place at h
  split at h
  · cases h
  · rename_i parts hparts
    split at h
    · cases h
    · rename_i id hid
      cases h
      exact ⟨parts, hparts, hid, rfl⟩

theorem listedClass?_some {names : List String} {owner : String} {id : RowId}
    (h : x.listedClass? names owner = some id) :
    owner ∈ names ∧ ∃ c ∈ x.classes, c.name = owner ∧ c.id = id := by
  unfold listedClass? at h
  split at h
  · rename_i ho
    obtain ⟨c, hc, rfl⟩ := Option.map_eq_some_iff.1 h
    exact ⟨ho, c, List.mem_of_find?_eq_some hc, by simpa using List.find?_some hc, rfl⟩
  · cases h

theorem mem_of_leastId {ms : List Method} {m : Method} (h : leastId ms = some m) : m ∈ ms := by
  induction ms generalizing m with
  | nil => cases h
  | cons a ms ih =>
    unfold leastId at h
    split at h
    · cases h; exact List.mem_cons_self
    · rename_i other hother
      split at h <;> cases h
      · exact List.mem_cons_of_mem _ (ih hother)
      · exact List.mem_cons_self

theorem mem_of_resolveCallee {callee : String} {m : Method} (h : x.resolveCallee callee = some m) :
    m ∈ x.methods := by
  unfold resolveCallee at h
  rw [Option.orElse_eq_orElse, Option.orElse_eq_or, Option.or_eq_some_iff] at h
  rcases h with h | ⟨-, h⟩
  · exact List.mem_of_mem_filter (List.mem_of_find?_eq_some h)
  · exact List.mem_of_mem_filter (mem_of_leastId h)

/-- Both ends of an edge are stored methods. -/
theorem edge_ok {c : CallInput} {e : RowId × RowId} (h : x.edge c = .ok e) :
    e.1 ∈ x.methods.map Method.id ∧ e.2 ∈ x.methods.map Method.id := by
  unfold edge at h
  split at h
  · cases h
  · rename_i caller hcaller
    split at h
    · cases h
    · rename_i callee hcallee
      cases h
      exact ⟨List.mem_map_of_mem (List.mem_of_find?_eq_some hcaller),
        List.mem_map_of_mem (mem_of_resolveCallee hcallee)⟩

theorem edges_ok {cs : List CallInput} {e : RowId × RowId} (h : e ∈ x.edges cs) :
    e.1 ∈ x.methods.map Method.id ∧ e.2 ∈ x.methods.map Method.id := by
  obtain ⟨c, -, hc⟩ := List.mem_filterMap.1 h
  cases he : x.edge c with
  | error reason => rw [he] at hc; cases hc
  | ok e' =>
    rw [he] at hc
    cases hc
    exact edge_ok he

/-- Methods keep their ids in a run. -/
theorem ids_subset_putMethods {find : String → Option RowId} {rows : List Method}
    (ms : List MethodInput) :
    rows.map Method.id ⊆ (putMethods find rows ms).map Method.id := by
  obtain ⟨added, hrows, -⟩ := putMethods_closed find rows ms
  have hid : (Method.id ∘ Method.revise ms) = Method.id :=
    funext fun r => (Method.revise_links ms r).1
  rw [hrows, List.map_map, hid, List.map_append]
  exact List.subset_append_left _ _

namespace Written

theorem isPrefix_projects (h : Written x b y r) : x.projects <+: y.projects :=
  h.projects ▸ Keying.isPrefix_intern _ _

theorem isPrefix_documents (h : Written x b y r) : x.documents <+: y.documents :=
  h.documents ▸ Keying.isPrefix_intern _ _

theorem isPrefix_classes (h : Written x b y r) : x.classes <+: y.classes :=
  h.classes ▸ Keying.isPrefix_intern _ _

/-- The names of the classes after a batch. -/
theorem names_classes (h : Written x b y r) (hx : WellFormed x) :
    y.classes.map Class.name = (x.classes.map Class.name ++ b.classes).eraseDups :=
  h.classes ▸ Keying.keys_intern (K := classKeying r.documentId) hx.classes.distinct b.classes

/-- Every class of a batch is there after it. -/
theorem class_mem (h : Written x b y r) (hx : WellFormed x) :
    ∀ c ∈ b.classes, c ∈ y.classes.map Class.name := by
  intro c hc
  rw [h.names_classes hx, List.mem_eraseDups]
  exact List.mem_append_right _ hc

/-- A name has one row, so two runs of a batch that end with the same rows end with its id, whatever
calls they have. -/
theorem projectId_congr {x' y' : Index} {r' : Report} {cs : List CallInput} (h : Written x b y r)
    (h' : Written x' { b with calls := cs } y' r') (hy : WellFormed y)
    (hp : y'.projects = y.projects) : r'.projectId = r.projectId := by
  obtain ⟨p, hpy, hname, hid⟩ := h.project
  obtain ⟨p', hpy', hname', hid'⟩ := h'.project
  rw [hp] at hpy'
  rw [← hid, ← hid', hy.projects.eq_of_key hpy' hpy (hname'.trans hname.symm)]

theorem documentId_congr {x' y' : Index} {r' : Report} {cs : List CallInput} (h : Written x b y r)
    (h' : Written x' { b with calls := cs } y' r') (hy : WellFormed y)
    (hd : y'.documents = y.documents) : r'.documentId = r.documentId := by
  obtain ⟨d, hdy, hpath, hid⟩ := h.document
  obtain ⟨d', hdy', hpath', hid'⟩ := h'.document
  rw [hd] at hdy'
  rw [← hid, ← hid', hy.documents.eq_of_key hdy' hdy (hpath'.trans hpath.symm)]

/-- A method after a batch was there before it, or it stands in the class that its signature names. -/
theorem mem_methods (h : Written x b y r) {m : Method} (hm : m ∈ y.methods) :
    (∃ s ∈ x.methods, m = s.revise b.methods) ∨
      ∃ c ∈ y.classes, c.id = m.classId ∧ splitSignature m.signature = some ⟨c.name, m.name⟩ := by
  rw [h.methods] at hm
  rcases (mem_putMethods hm).1 with hold | ⟨-, hplace⟩
  · exact Or.inl hold
  · obtain ⟨parts, hsplit, hfind, hname⟩ := place_ok hplace
    obtain ⟨-, c, hc, howner, hid⟩ := listedClass?_some hfind
    refine Or.inr ⟨c, hc, hid, ?_⟩
    rw [hsplit, howner, ← hname]

/-- **A written batch keeps an index well formed.** -/
theorem wellFormed (h : Written x b y r) (hx : WellFormed x) (hb : b.Valid) : WellFormed y := by
  have hms : x.methods.map Method.id ⊆ y.methods.map Method.id :=
    h.methods ▸ ids_subset_putMethods b.methods
  obtain ⟨added, hcalls, hadded⟩ := appendEdges_eq x.calls (y.edges b.calls)
  refine ⟨?_, ?_, ?_, ?_, ?_, ?_, ?_, ?_, ?_⟩
  · rw [h.projects]
    exact projectKeying.intern_ok hx.projects (by simpa using hb.project)
  · rw [h.documents]
    exact (documentKeying r.projectId).intern_ok hx.documents (by simpa using hb.document)
  · rw [h.classes]
    exact (classKeying r.documentId).intern_ok hx.classes hb.classes
  · rw [h.methods]
    exact putMethods_ok hx.methods hb.methods
  · rw [h.calls]
    exact appendEdges_ids _ hx.callIds
  -- a new row refers to what the batch has just looked up
  · intro d hd
    rw [h.documents] at hd
    rcases Keying.mem_intern hd with hd | ⟨-, -, i, hrow⟩
    · exact (h.isPrefix_projects.map Project.id).subset (hx.documentProject d hd)
    · obtain ⟨p, hp, -, hpi⟩ := h.project
      rw [hrow]
      exact hpi ▸ List.mem_map_of_mem hp
  · intro c hc
    rw [h.classes] at hc
    rcases Keying.mem_intern hc with hc | ⟨-, -, i, hrow⟩
    · exact (h.isPrefix_documents.map Document.id).subset (hx.classDocument c hc)
    · obtain ⟨d, hd, -, hdi⟩ := h.document
      rw [hrow]
      exact hdi ▸ List.mem_map_of_mem hd
  · intro m hm
    rcases h.mem_methods hm with ⟨s, hs, rfl⟩ | ⟨c, hc, hid, -⟩
    · rw [(Method.revise_links b.methods s).2.1]
      exact (h.isPrefix_classes.map Class.id).subset (hx.methodClass s hs)
    · exact hid ▸ List.mem_map_of_mem hc
  · intro c hc
    rw [h.calls, hcalls] at hc
    rcases List.mem_append.1 hc with hc | hc
    · exact ⟨hms (hx.callEnds c hc).1, hms (hx.callEnds c hc).2⟩
    · have hends : ends c ∈ y.edges b.calls := hadded ▸ List.mem_map_of_mem hc
      exact edges_ok hends

end Written

/-! ## Operations -/

/-- An ingest fails and leaves the index, or it writes a valid batch. -/
theorem ingest_cases (refuse : Refusal) (x : Index) (b : Batch) :
    (∃ e, x.ingest refuse b = (x, .error e)) ∨
      ∃ y r, x.ingest refuse b = (y, .ok r) ∧ b.Valid ∧ writeBatch refuse x b = .ok (y, r) := by
  unfold ingest
  cases hv : b.validate with
  | error e => exact Or.inl ⟨e, rfl⟩
  | ok u =>
    cases hw : writeBatch refuse x b with
    | error e => exact Or.inl ⟨e, rfl⟩
    | ok out => exact Or.inr ⟨out.1, out.2, rfl, Batch.validate_eq_ok_iff.1 hv, rfl⟩

/-- An ingest that succeeds wrote its batch. -/
theorem written_of_ingest (hx : WellFormed x) (h : x.ingest refuse b = (y, .ok r)) :
    b.Valid ∧ Written x b y r := by
  rcases ingest_cases refuse x b with ⟨e, he⟩ | ⟨y', r', he, hb, hw⟩
  · rw [he] at h; cases h
  · rw [he] at h
    cases h
    exact ⟨hb, writeBatch_ok hx.methods hb.methods hw⟩

theorem ingest_wellFormed (hx : WellFormed x) (refuse : Refusal) (b : Batch) :
    WellFormed (x.ingest refuse b).1 := by
  rcases ingest_cases refuse x b with ⟨e, he⟩ | ⟨y, r, he, hb, hw⟩ <;> rw [he]
  · exact hx
  · exact (writeBatch_ok hx.methods hb.methods hw).wellFormed hx hb

/-- What a written batch keeps, every ingest into a well-formed index keeps, finished or failed. -/
theorem ingest_induct {P : Index → Prop}
    (hwritten : ∀ {x y : Index} {b : Batch} {r : Report}, Written x b y r → P x → P y)
    (x : Index) (b : Batch) (hx : WellFormed x ∧ P x) :
    WellFormed (x.ingest refuse b).1 ∧ P (x.ingest refuse b).1 := by
  obtain ⟨hwx, hP⟩ := hx
  refine ⟨ingest_wellFormed hwx refuse b, ?_⟩
  rcases ingest_cases refuse x b with ⟨e, he⟩ | ⟨y, r, hy, -, -⟩
  · rw [he]; exact hP
  · rw [hy]; exact hwritten (written_of_ingest hwx hy).2 hP

/-- What each ingest keeps, a list of ingests keeps, up to the one that fails. -/
theorem ingestEach_induct {P : Index → Prop} (hstep : ∀ x b, P x → P (x.ingest refuse b).1)
    (bs : List Batch) (hx : P x) : P (ingestEach refuse x bs).1 := by
  induction bs generalizing x with
  | nil => exact hx
  | cons b bs ih =>
    have hy := hstep x b hx
    unfold ingestEach
    -- a batch that fails ends the run on the index of its own ingest
    split
    · rename_i y e he
      rw [he] at hy; exact hy
    · rename_i y r he
      rw [he] at hy
      have hz := ih hy
      split <;> rename_i he' <;> rw [he'] at hz <;> exact hz

/-- The first ingest of a list that is written as a whole, and the rest of the list. -/
theorem ingestEach_cons_ok {bs : List Batch} {reports : List Report}
    (h : ingestEach refuse x (b :: bs) = (y, .ok reports)) :
    ∃ z r rest, x.ingest refuse b = (z, .ok r) ∧ ingestEach refuse z bs = (y, .ok rest) ∧
      reports = r :: rest := by
  rw [ingestEach] at h
  split at h
  · cases h
  · rename_i z r hr
    split at h
    · cases h
    · rename_i y' rest hrest
      cases h
      exact ⟨z, r, rest, hr, hrest, rfl⟩

theorem ingestAll_induct {P : Index → Prop} (hstep : ∀ x b, P x → P (x.ingest refuse b).1)
    (bs : List Batch) (hx : P x) : P (x.ingestAll refuse bs).1 := by
  unfold ingestAll
  split
  · exact hx
  · exact ingestEach_induct hstep bs hx

/-- A clear leaves the index or the empty one. -/
theorem clear_cases (refuse : Refusal) (x : Index) :
    (∃ e, x.clear refuse = (x, .error e)) ∨ x.clear refuse = (.empty, .ok ()) := by
  rw [x.clear_eq refuse]
  cases x.deletions.findSome? refuse with
  | some fault => exact Or.inl ⟨_, rfl⟩
  | none => exact Or.inr rfl

theorem empty_wellFormed : WellFormed .empty :=
  ⟨.nil, .nil, .nil, .nil, rfl, by simp [empty], by simp [empty], by simp [empty], by simp [empty]⟩

/-- What the empty index has and each ingest keeps, every operation keeps, finished or failed. -/
theorem apply_induct {P : Index → Prop} (hempty : P .empty)
    (hstep : ∀ x b, P x → P (x.ingest refuse b).1) (hx : P x) (op : Operation) :
    P (op.apply refuse x) := by
  cases op with
  | ingest b => exact hstep x b hx
  | ingestAll bs => exact ingestAll_induct hstep bs hx
  | ingestJson text =>
    show P (x.ingestJson refuse text).1
    unfold ingestJson
    split
    · exact hx
    · exact ingestAll_induct hstep _ hx
  | clear =>
    show P (x.clear refuse).1
    rcases clear_cases refuse x with ⟨e, he⟩ | he <;> rw [he]
    · exact hx
    · exact hempty

theorem apply_wellFormed (hx : WellFormed x) (refuse : Refusal) (op : Operation) :
    WellFormed (op.apply refuse x) :=
  apply_induct empty_wellFormed (fun _ b hx => ingest_wellFormed hx refuse b) hx op

theorem Reachable.wellFormed (hx : Reachable x) : WellFormed x := by
  induction hx with
  | empty => exact empty_wellFormed
  | apply hx refuse op ih => exact apply_wellFormed ih refuse op

/-- **The index is always well formed.** Take any operations in any order, each with whatever the
database refuses while it runs, so that an ingest or a clear may fail at any of its writes: after
them keys are distinct and never blank, every reference names a row, and the ids of each table count
its rows. -/
theorem run_wellFormed (ops : List (Refusal × Operation)) : WellFormed (run .empty ops) :=
  (Reachable.empty.run ops).wellFormed

end CallIndex.Index
