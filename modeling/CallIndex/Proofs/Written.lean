import CallIndex.Proofs.MethodTable

/-!
# What a written batch leaves

`Written x b y r` says, table by table, what a batch `b` makes of an index `x` when the database
refuses none of its writes: the index `y` and the report `r`. Nothing in it hangs on which writes
would have been refused.

* `resolveProject_ok`, `resolveDocument_ok`, `resolveClasses_ok`: a look-up interns its keys.
* `writeMethods_ok`: the methods are a run over the table of methods (`putMethods`).
* `writeCalls_ok`: the calls see the methods as they stand after that run, and nothing else.
* `writeBatch_ok`: a batch that is written is `Written`.
-/

namespace CallIndex

/-- Two steps that succeed together succeed one after the other. -/
theorem ok_of_bind {ε α β : Type} {first : Except ε α} {second : α → Except ε β} {b : β}
    (h : first >>= second = .ok b) : ∃ a, first = .ok a ∧ second a = .ok b := by
  cases hf : first with
  | error e => rw [hf] at h; cases h
  | ok a => rw [hf] at h; exact ⟨a, rfl, h⟩

theorem bind_eq_ok_iff {ε α β : Type} {first : Except ε α} {second : α → Except ε β} {b : β} :
    first >>= second = .ok b ↔ ∃ a, first = .ok a ∧ second a = .ok b := by
  refine ⟨ok_of_bind, ?_⟩
  rintro ⟨a, hfirst, hsecond⟩
  rw [hfirst]
  exact hsecond

/-- A value that is wrapped comes from a step that succeeds. -/
theorem ok_of_map {ε α β : Type} {first : Except ε α} (wrap : α → β) {b : β}
    (h : first.map wrap = .ok b) : ∃ a, first = .ok a ∧ wrap a = b := by
  cases hf : first with
  | error e => rw [hf] at h; cases h
  | ok a => rw [hf] at h; cases h; exact ⟨a, rfl, rfl⟩

def projectKeying : Keying Project :=
  ⟨Project.id, Project.name, fun id name => ⟨id, name⟩, fun _ _ => rfl, fun _ _ => rfl⟩

/-- New documents go under one project. -/
def documentKeying (projectId : RowId) : Keying Document :=
  ⟨Document.id, Document.path, fun id path => ⟨id, projectId, path⟩, fun _ _ => rfl, fun _ _ => rfl⟩

/-- New classes go under one document. -/
def classKeying (documentId : RowId) : Keying Class :=
  ⟨Class.id, Class.name, fun id name => ⟨id, documentId, name⟩, fun _ _ => rfl, fun _ _ => rfl⟩

namespace Keying

variable {α : Type} (K : Keying α) {rows : List α} {k : String}

theorem intern_of_find {r : α} (h : rows.find? (fun s => K.key s = k) = some r) :
    K.intern [k] rows = rows := by
  have hr : K.key r = k := by simpa using List.find?_some h
  exact intern_of_mem (hr ▸ List.mem_map_of_mem (List.mem_of_find?_eq_some h))

theorem intern_of_find_none (h : rows.find? (fun s => K.key s = k) = none) :
    K.intern [k] rows = rows ++ [K.row (Index.nextId (rows.map K.id)) k] :=
  if_neg (find?_key_none h)

end Keying

namespace Index

variable {refuse : Refusal} {x y : Index}

/-! ## Projects, documents and classes -/

theorem resolveProject_ok {name : String} {id : RowId}
    (h : resolveProject refuse x name = .ok (y, id)) :
    y = { x with projects := projectKeying.intern [name] x.projects } ∧
      ∃ p ∈ y.projects, p.name = name ∧ p.id = id := by
  unfold resolveProject at h
  split at h
  · rename_i p hp
    cases h
    refine ⟨?_, p, List.mem_of_find?_eq_some hp, by simpa using List.find?_some hp, rfl⟩
    rw [projectKeying.intern_of_find hp]
  · rename_i hp
    obtain ⟨-, -, h⟩ := ok_of_bind h
    cases h
    refine ⟨?_, _, List.mem_append_right _ List.mem_cons_self, rfl, rfl⟩
    rw [projectKeying.intern_of_find_none hp]; rfl

theorem resolveDocument_ok {projectId id : RowId} {path : String}
    (h : resolveDocument refuse x projectId path = .ok (y, id)) :
    y = { x with documents := (documentKeying projectId).intern [path] x.documents } ∧
      ∃ d ∈ y.documents, d.path = path ∧ d.id = id := by
  unfold resolveDocument at h
  split at h
  · rename_i d hd
    cases h
    refine ⟨?_, d, List.mem_of_find?_eq_some hd, by simpa using List.find?_some hd, rfl⟩
    rw [(documentKeying projectId).intern_of_find hd]
  · rename_i hd
    obtain ⟨-, -, h⟩ := ok_of_bind h
    cases h
    refine ⟨?_, _, List.mem_append_right _ List.mem_cons_self, rfl, rfl⟩
    rw [(documentKeying projectId).intern_of_find_none hd]; rfl

theorem resolveClass_ok {documentId id : RowId} {name name' : String}
    (h : resolveClass refuse documentId x name = .ok (y, (name', id))) :
    y = { x with classes := (classKeying documentId).intern [name] x.classes } ∧ name' = name ∧
      (y.classByName? name).map Class.id = some id := by
  unfold resolveClass at h
  split at h
  · rename_i c hc
    cases h
    refine ⟨?_, rfl, by rw [hc]; rfl⟩
    rw [(classKeying documentId).intern_of_find hc]
  · rename_i hc
    obtain ⟨-, -, h⟩ := ok_of_bind h
    cases h
    refine ⟨?_, rfl, ?_⟩
    · rw [(classKeying documentId).intern_of_find_none hc]; rfl
    · have hc' : x.classes.find? (fun c => c.name = name) = none := hc
      simp [classByName?, hc']

/-- The first step of a run, and the rest of it. -/
theorem runAll_cons_ok {α β : Type} {step : Index → α → Except Error (Index × β)} {a : α}
    {as : List α} {bs : List β} (h : runAll step x (a :: as) = .ok (y, bs)) :
    ∃ z b bs', step x a = .ok (z, b) ∧ runAll step z as = .ok (y, bs') ∧ bs = b :: bs' := by
  rw [runAll] at h
  obtain ⟨⟨z, b⟩, h1, h⟩ := ok_of_bind h
  obtain ⟨⟨y', bs'⟩, h2, h⟩ := ok_of_bind h
  cases h
  exact ⟨z, b, bs', h1, h2, rfl⟩

/-- The id of a class that a batch lists. -/
def listedClass? (x : Index) (names : List String) (owner : String) : Option RowId :=
  if owner ∈ names then (x.classByName? owner).map Class.id else none

/-- **The class step** interns the names, and what it hands on finds just the listed classes. -/
theorem resolveClasses_ok {documentId : RowId} {names : List String} {ids : List (String × RowId)}
    (h : runAll (resolveClass refuse documentId) x names = .ok (y, ids)) :
    y = { x with classes := (classKeying documentId).intern names x.classes } ∧
      (fun owner => ids.lookup owner) = y.listedClass? names := by
  induction names generalizing x ids with
  | nil =>
    cases h
    exact ⟨rfl, by funext owner; simp [listedClass?]⟩
  | cons name names ih =>
    obtain ⟨z, ⟨name', id⟩, ids', h1, h2, rfl⟩ := runAll_cons_ok h
    obtain ⟨hz, rfl, hid⟩ := resolveClass_ok h1
    obtain ⟨hy, hids⟩ := ih h2
    refine ⟨by rw [hy, hz]; rfl, ?_⟩
    -- a class that is there stays the one of its name
    have hkeep : (y.classByName? name').map Class.id = some id := by
      obtain ⟨c, hc, hci⟩ := Option.map_eq_some_iff.1 hid
      obtain ⟨added, hadd⟩ := (classKeying documentId).isPrefix_intern names z.classes
      have hfind : z.classes.find? (fun c => c.name = name') = some c := hc
      rw [hy, ← hci]
      simp [classByName?, ← hadd, hfind]
    funext owner
    have hrest : ids'.lookup owner = y.listedClass? names owner := congrFun hids owner
    unfold listedClass? at hrest ⊢
    by_cases ho : owner = name'
    · subst ho
      rw [if_pos List.mem_cons_self, hkeep, List.lookup_cons_self]
    · rw [List.lookup_cons, beq_false_of_ne ho, hrest]
      simp [ho]

/-! ## Methods -/

/-- Replacing a row by its id is rewriting the rows of its signature. -/
theorem replaceMethod_eq {rows : List Method} (hk : KeyedTable Method.id Method.signature rows)
    {stored : Method} {m : MethodInput} (hs : stored ∈ rows) (hm : stored.signature = m.signature) :
    replaceMethod (stored.withText m) rows = rows.map (Method.rewrite m) := by
  unfold replaceMethod
  apply List.map_congr_left
  intro r hr
  unfold Method.rewrite
  -- ids and signatures are both distinct, so both single out the same row
  by_cases h : r = stored
  · subst h
    have h1 : r.id = (r.withText m).id := rfl
    rw [if_pos h1, if_pos hm.symm]
  · have h1 : r.id ≠ (stored.withText m).id := fun e => h (hk.eq_of_id hr hs e)
    have h2 : m.signature ≠ r.signature := fun e => h (hk.eq_of_key hr hs (e.symm.trans hm.symm))
    rw [if_neg h1, if_neg h2]

theorem writeMethod_ok {ids : List (String × RowId)} {m : MethodInput} {e : MethodEffect}
    (hk : KeyedTable Method.id Method.signature x.methods)
    (h : writeMethod refuse ids x m = .ok (y, e)) :
    y = { x with methods := putMethod (fun owner => ids.lookup owner) x.methods m } ∧
      e = effectOf (fun owner => ids.lookup owner) x.methods m := by
  unfold writeMethod at h
  unfold putMethod effectOf
  split at h
  · rename_i stored hs
    have hmem : stored ∈ x.methods := List.mem_of_find?_eq_some hs
    have hsig : stored.signature = m.signature := by simpa using List.find?_some hs
    have hin : m.signature ∈ signatures x.methods := hsig ▸ List.mem_map_of_mem hmem
    obtain ⟨-, -, h⟩ := ok_of_bind h
    cases h
    rw [if_pos hin, if_pos hin, ← replaceMethod_eq hk hmem hsig]
    exact ⟨rfl, rfl⟩
  · rename_i hs
    have hout : m.signature ∉ signatures x.methods := find?_key_none hs
    rw [if_neg hout, if_neg hout]
    split at h
    · rename_i hparts
      cases h
      rw [place_of_none hparts]
      exact ⟨rfl, rfl⟩
    · rename_i parts hparts
      split at h
      · rename_i hnone
        cases h
        rw [place_of_unlisted hparts hnone]
        exact ⟨rfl, rfl⟩
      · rename_i classId hsome
        obtain ⟨-, -, h⟩ := ok_of_bind h
        cases h
        rw [place_of_listed hparts hsome]
        exact ⟨rfl, rfl⟩

/-- **The method step** is a run over the table of methods. -/
theorem writeMethods_ok {ids : List (String × RowId)} {ms : List MethodInput}
    {es : List MethodEffect} (hk : KeyedTable Method.id Method.signature x.methods)
    (hms : ∀ m ∈ ms, isBlank m.signature = false)
    (h : runAll (writeMethod refuse ids) x ms = .ok (y, es)) :
    y = { x with methods := putMethods (fun owner => ids.lookup owner) x.methods ms } ∧
      es = effects (fun owner => ids.lookup owner) x.methods ms := by
  induction ms generalizing x es with
  | nil => cases h; exact ⟨rfl, rfl⟩
  | cons m ms ih =>
    obtain ⟨z, e, es', h1, h2, rfl⟩ := runAll_cons_ok h
    obtain ⟨hz, he⟩ := writeMethod_ok hk h1
    have hkz : KeyedTable Method.id Method.signature z.methods := by
      rw [hz]
      show KeyedTable _ _ (putMethods _ x.methods [m])
      exact putMethods_ok hk (by simpa using hms m List.mem_cons_self)
    obtain ⟨hy, hes⟩ := ih hkz (fun n hn => hms n (List.mem_cons_of_mem _ hn)) h2
    rw [hz] at hy hes
    exact ⟨hy, by rw [he, hes]; rfl⟩

/-! ## Calls -/

/-- The ends of the edge that a call makes, or why it makes none. -/
def edge (x : Index) (c : CallInput) : Except Skipped (RowId × RowId) :=
  match x.methodBySignature? c.caller with
  | none => .error (.callerNotIndexed c.caller c.callee)
  | some caller =>
    match x.resolveCallee c.callee with
    | none => .error (.calleeUnresolved c.caller c.callee)
    | some callee => .ok (caller.id, callee.id)

/-- What becomes of a call. -/
def callEffect (x : Index) (c : CallInput) : CallEffect :=
  match x.edge c with
  | .error reason => .skipped reason
  | .ok _ => .inserted

/-- The edges that some calls make, in their order. -/
def edges (x : Index) (cs : List CallInput) : List (RowId × RowId) :=
  cs.filterMap fun c => (x.edge c).toOption

/-- The ends of an edge hang on the methods only. -/
theorem edge_congr (h : y.methods = x.methods) : y.edge = x.edge := by
  funext c
  unfold edge methodBySignature? resolveCallee
  rw [h]

/-- The listed classes hang on the table of classes only. -/
theorem listedClass?_congr (h : y.classes = x.classes) : y.listedClass? = x.listedClass? := by
  funext names owner
  unfold listedClass? classByName?
  rw [h]

theorem callEffect_congr (h : y.methods = x.methods) : y.callEffect = x.callEffect := by
  funext c
  unfold callEffect
  rw [edge_congr h]

theorem edges_congr (h : y.methods = x.methods) : y.edges = x.edges := by
  funext cs
  unfold edges
  rw [edge_congr h]

/-- A table of calls after one more edge. -/
def appendEdge (rows : List MethodCall) (e : RowId × RowId) : List MethodCall :=
  rows ++ [⟨nextId (rows.map MethodCall.id), e.1, e.2⟩]

/-- A table of calls after some more edges. -/
def appendEdges (rows : List MethodCall) (es : List (RowId × RowId)) : List MethodCall :=
  es.foldl appendEdge rows

/-- The two ends of a stored call. -/
def ends (c : MethodCall) : RowId × RowId := (c.callerId, c.calleeId)

/-- Edges are only added, in their order. -/
theorem appendEdges_eq (rows : List MethodCall) (es : List (RowId × RowId)) :
    ∃ added, appendEdges rows es = rows ++ added ∧ added.map ends = es := by
  induction es generalizing rows with
  | nil => exact ⟨[], by simp [appendEdges], rfl⟩
  | cons e es ih =>
    obtain ⟨added, h1, h2⟩ := ih (appendEdge rows e)
    refine ⟨⟨nextId (rows.map MethodCall.id), e.1, e.2⟩ :: added, ?_, ?_⟩
    · rw [appendEdges, List.foldl_cons, ← appendEdges, h1, appendEdge, List.append_assoc]
      rfl
    · rw [List.map_cons, h2]; rfl

/-- New edges go on counting. -/
theorem appendEdges_ids {rows : List MethodCall} (es : List (RowId × RowId))
    (h : rows.map MethodCall.id = firstIds rows.length) :
    (appendEdges rows es).map MethodCall.id = firstIds (appendEdges rows es).length := by
  induction es generalizing rows with
  | nil => exact h
  | cons e es ih =>
    apply ih
    unfold appendEdge
    rw [List.map_append, h, nextId_firstIds, List.length_append, List.length_singleton,
      firstIds_succ]
    rfl

theorem writeCall_ok {c : CallInput} {e : CallEffect}
    (h : writeCall refuse x c = .ok (y, e)) :
    y = { x with calls := appendEdges x.calls (x.edges [c]) } ∧ e = x.callEffect c := by
  unfold writeCall at h
  unfold edges callEffect edge
  split at h
  · rename_i hcaller
    cases h
    simp [hcaller, Except.toOption, appendEdges]
  · rename_i caller hcaller
    split at h
    · rename_i hcallee
      cases h
      simp [hcaller, hcallee, Except.toOption, appendEdges]
    · rename_i callee hcallee
      obtain ⟨-, -, h⟩ := ok_of_bind h
      cases h
      simp [hcaller, hcallee, Except.toOption, appendEdges, appendEdge]

/-- **The call step** adds the edges that the calls make on the index before it. -/
theorem writeCalls_ok {cs : List CallInput} {es : List CallEffect}
    (h : runAll (writeCall refuse) x cs = .ok (y, es)) :
    y = { x with calls := appendEdges x.calls (x.edges cs) } ∧ es = cs.map x.callEffect := by
  induction cs generalizing x es with
  | nil => cases h; exact ⟨rfl, rfl⟩
  | cons c cs ih =>
    obtain ⟨z, e, es', h1, h2, rfl⟩ := runAll_cons_ok h
    obtain ⟨hz, he⟩ := writeCall_ok h1
    obtain ⟨hy, hes⟩ := ih h2
    -- an edge changes no method, so every call sees the same ones
    have hm : z.methods = x.methods := by rw [hz]
    refine ⟨?_, by rw [he, hes, callEffect_congr hm]; rfl⟩
    have hedges : x.edges (c :: cs) = x.edges [c] ++ x.edges cs := by
      unfold edges
      rw [← List.filterMap_append]; rfl
    rw [hy, edges_congr hm, hedges, appendEdges, appendEdges, List.foldl_append, hz]
    rfl

/-! ## Batches -/

/-- **What a batch makes of an index**, table by table, with the report. The classes of the batch are
looked up in the index at the end: a class that is there keeps its id. -/
structure Written (x : Index) (b : Batch) (y : Index) (r : Report) : Prop where
  projects : y.projects = projectKeying.intern [b.project] x.projects
  project : ∃ p ∈ y.projects, p.name = b.project ∧ p.id = r.projectId
  documents : y.documents = (documentKeying r.projectId).intern [b.document] x.documents
  document : ∃ d ∈ y.documents, d.path = b.document ∧ d.id = r.documentId
  classes : y.classes = (classKeying r.documentId).intern b.classes x.classes
  methods : y.methods = putMethods (y.listedClass? b.classes) x.methods b.methods
  calls : y.calls = appendEdges x.calls (y.edges b.calls)
  classCount : r.classes = b.classes.eraseDups.length
  methodsInserted : r.methodsInserted =
    (effects (y.listedClass? b.classes) x.methods b.methods).countP (· = .inserted)
  methodsUpdated : r.methodsUpdated =
    (effects (y.listedClass? b.classes) x.methods b.methods).countP (· = .updated)
  callsInserted : r.callsInserted = (b.calls.map y.callEffect).countP (· = .inserted)
  skipped : r.skipped =
    (effects (y.listedClass? b.classes) x.methods b.methods).filterMap MethodEffect.skipped? ++
      (b.calls.map y.callEffect).filterMap CallEffect.skipped?

/-- **A batch that is written is written as `Written` says**, whatever else is refused. -/
theorem writeBatch_ok {b : Batch} {r : Report}
    (hk : KeyedTable Method.id Method.signature x.methods)
    (hms : ∀ m ∈ b.methods, isBlank m.signature = false)
    (h : writeBatch refuse x b = .ok (y, r)) : Written x b y r := by
  unfold writeBatch at h
  obtain ⟨⟨x1, projectId⟩, h1, h⟩ := ok_of_bind h
  obtain ⟨⟨x2, documentId⟩, h2, h⟩ := ok_of_bind h
  obtain ⟨⟨x3, classIds⟩, h3, h⟩ := ok_of_bind h
  obtain ⟨⟨x4, methodEffects⟩, h4, h⟩ := ok_of_bind h
  obtain ⟨⟨x5, callEffects⟩, h5, h⟩ := ok_of_bind h
  cases h
  obtain ⟨hx1, p, hp, hpn, hpi⟩ := resolveProject_ok h1
  obtain ⟨hx2, d, hd, hdp, hdi⟩ := resolveDocument_ok h2
  obtain ⟨hx3, hfind⟩ := resolveClasses_ok h3
  have hm3 : x3.methods = x.methods := by rw [hx3, hx2, hx1]
  obtain ⟨hx4, he4⟩ := writeMethods_ok (hm3 ▸ hk) hms h4
  obtain ⟨hx5, he5⟩ := writeCalls_ok h5
  rw [hfind] at hx4 he4
  -- the last two steps touch neither the classes nor, in the end, the methods
  have hm5 : y.methods = x4.methods := by rw [hx5]
  have hlisted : y.listedClass? = x3.listedClass? := listedClass?_congr (by rw [hx5, hx4])
  rw [hm3] at hx4 he4
  refine ⟨?_, ⟨p, ?_, hpn, hpi⟩, ?_, ⟨d, ?_, hdp, hdi⟩, ?_, ?_, ?_, rfl, ?_, ?_, ?_, ?_⟩
  · rw [hx5, hx4, hx3, hx2, hx1]
  · rw [hx5, hx4, hx3, hx2]; exact hp
  · rw [hx5, hx4, hx3, hx2, hx1]
  · rw [hx5, hx4, hx3]; exact hd
  · rw [hx5, hx4, hx3, hx2, hx1]
  · rw [hlisted, hx5, hx4]
  · rw [edges_congr hm5, hx5, hx4, hx3, hx2, hx1]
  · rw [hlisted, he4]
  · rw [hlisted, he4]
  · rw [callEffect_congr hm5, he5]
  · rw [hlisted, callEffect_congr hm5, he4, he5]

end Index

end CallIndex
