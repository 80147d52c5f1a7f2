import CallIndex.Proofs.AllOrNothing
import CallIndex.Proofs.Replay
import Mathlib.Data.Finset.Card
import Mathlib.Data.Finset.Dedup

/-!
# The report of a batch adds up

Each method and each call of a batch is counted once: as written, or as skipped.

* `Index.edgeOf?`: the edge that a call names, if both of its ends are stored.
* `Index.Accounts`: what a report says of the batch, of the tables that grew, and of the edges that
  were added.
* `length_putMethods`, `effects_count`: the table of methods grows by the inserted ones, and each input
  is inserted, updated or skipped.
* `unplaced?`, `Written.skippedMethods`: which methods are skipped, and why.
* `Written.accounts`: **the report of a written batch adds up.**
* `Index.ingest_accounts`: the same for every ingest, and what another order of its calls changes.
-/

namespace CallIndex

/-! ## Methods -/

/-- Each effect is one of three. -/
theorem effects_count (es : List Index.MethodEffect) :
    es.countP (· = .inserted) + es.countP (· = .updated) +
      (es.filterMap Index.MethodEffect.skipped?).length = es.length := by
  induction es with
  | nil => rfl
  | cons e es ih =>
    rw [List.countP_cons, List.countP_cons, List.filterMap_cons, List.length_cons, ← ih]
    cases e <;> simp [Index.MethodEffect.skipped?] <;> omega

theorem length_effects (find : String → Option RowId) (rows : List Method)
    (ms : List MethodInput) : (effects find rows ms).length = ms.length := by
  induction ms generalizing rows with
  | nil => rfl
  | cons m ms ih => rw [effects, List.length_cons, List.length_cons, ih]

/-- **The table of methods grows by the inserted ones.** -/
theorem length_putMethods (find : String → Option RowId) (rows : List Method)
    (ms : List MethodInput) : (putMethods find rows ms).length =
      rows.length + (effects find rows ms).countP (· = .inserted) := by
  induction ms generalizing rows with
  | nil => rfl
  | cons m ms ih =>
    have hrest : (putMethods find rows (m :: ms)).length = _ := ih (putMethod find rows m)
    rw [hrest, effects, List.countP_cons]
    rcases putMethod_cases find rows m with ⟨-, hp, he⟩ | ⟨-, _, -, hp, he⟩ | ⟨-, _, _, -, hp, he⟩ <;>
      rw [hp, he]
    · simp
    · simp
    · simp
      omega

/-- Why a new method is not written, if it is not: its signature has no class part, or one that the batch
does not list. -/
def unplaced? (classes : List String) (signature : String) : Option Skipped :=
  match splitSignature signature with
  | none => some (.noClassPart signature)
  | some parts =>
    if parts.owner ∈ classes then none else some (.classNotListed signature parts.owner)

/-- A method that is not written is named by its signature, whatever the reason. -/
theorem item_unplaced? {classes : List String} {signature : String} {s : Skipped}
    (h : unplaced? classes signature = some s) : s.item = .method signature := by
  unfold unplaced? at h
  split at h
  · cases h
    rfl
  · split at h <;> cases h
    rfl

/-- **The skipped methods** are those that are new and cannot be placed, in the order of the batch. -/
theorem skipped_effects {find : String → Option RowId} {classes : List String}
    (hplace : ∀ s reason, place find s = .error reason ↔ unplaced? classes s = some reason)
    (rows : List Method) (ms : List MethodInput) :
    (effects find rows ms).filterMap Index.MethodEffect.skipped? =
      (ms.filter fun m => m.signature ∉ signatures rows).filterMap fun m =>
        unplaced? classes m.signature := by
  induction ms generalizing rows with
  | nil => rfl
  | cons m ms ih =>
    rw [effects]
    rcases putMethod_cases find rows m with ⟨hs, hp, he⟩ | ⟨hs, reason, hreason, hp, he⟩ |
      ⟨hs, _, _, hok, hp, he⟩
    · rw [he, List.filterMap_cons_none rfl, hp, ih, signatures_map_rewrite,
        List.filter_cons_of_neg (by simpa using hs)]
    · have hskipped : Index.MethodEffect.skipped? (.skipped reason) = some reason := rfl
      rw [he, List.filterMap_cons_some hskipped, hp, ih, List.filter_cons_of_pos (by simpa using hs),
        List.filterMap_cons_some (f := fun m : MethodInput => unplaced? classes m.signature)
          ((hplace _ _).1 hreason)]
    · -- a later method with the same signature can be placed as well
      have hnone : unplaced? classes m.signature = none := by
        refine Option.eq_none_iff_forall_ne_some.2 fun reason h => ?_
        rw [← hplace, hok] at h
        cases h
      rw [he, List.filterMap_cons_none rfl, hp, ih, List.filter_cons_of_pos (by simpa using hs),
        List.filterMap_cons_none (f := fun m : MethodInput => unplaced? classes m.signature) hnone,
        List.filterMap_filter, List.filterMap_filter]
      refine List.filterMap_congr fun m' _ => ?_
      by_cases hsame : m'.signature = m.signature
      · simp [hsame, hnone]
      · simp [signatures, MethodInput.row, hsame]

namespace Index

variable {refuse : Refusal} {x y x' y' : Index} {b : Batch} {r r' : Report}

/-! ## Calls -/

/-- The edge that a call names: from the method with exactly its caller as signature to the one that
its callee resolves to. -/
def edgeOf? (x : Index) (c : CallInput) : Option (RowId × RowId) := do
  let caller ← x.methodBySignature? c.caller
  let callee ← x.resolveCallee c.callee
  some (caller.id, callee.id)

/-- The item that a skipped call is reported as. -/
def callItem (c : CallInput) : SkippedItem := .call c.caller c.callee

/-- A call is written if it names an edge, and reported if not. -/
theorem callEffect_cases (x : Index) (c : CallInput) :
    (∃ e, x.edgeOf? c = some e ∧ (x.edge c).toOption = some e ∧ x.callEffect c = .inserted) ∨
      ∃ s, x.edgeOf? c = none ∧ (x.edge c).toOption = none ∧ x.callEffect c = .skipped s ∧
        s.item = callItem c := by
  unfold callEffect edge edgeOf?
  cases x.methodBySignature? c.caller with
  | none => exact Or.inr ⟨_, rfl, rfl, rfl, rfl⟩
  | some caller =>
    cases x.resolveCallee c.callee with
    | none => exact Or.inr ⟨_, rfl, rfl, rfl, rfl⟩
    | some callee => exact Or.inl ⟨_, rfl, rfl, rfl⟩

/-- The edges of some calls are those that they name. -/
theorem edges_eq_filterMap (x : Index) (cs : List CallInput) : x.edges cs = cs.filterMap x.edgeOf? := by
  unfold edges
  congr 1
  funext c
  rcases callEffect_cases x c with ⟨e, h, he, -⟩ | ⟨_, h, he, -⟩ <;> rw [h, he]

theorem countP_inserted_calls (x : Index) (cs : List CallInput) :
    (cs.map x.callEffect).countP (· = .inserted) = (cs.filterMap x.edgeOf?).length := by
  induction cs with
  | nil => rfl
  | cons c cs ih =>
    rw [List.map_cons, List.countP_cons, ih]
    rcases callEffect_cases x c with ⟨e, h, -, he⟩ | ⟨s, h, -, he, -⟩
    · rw [he, List.filterMap_cons_some h]
      rfl
    · rw [he, List.filterMap_cons_none h]
      rfl

/-- **The skipped calls** are those that name no edge, in the order of the batch. -/
theorem skipped_calls (x : Index) (cs : List CallInput) :
    ((cs.map x.callEffect).filterMap CallEffect.skipped?).map Skipped.item =
      (cs.filter fun c => (x.edgeOf? c).isNone).map callItem := by
  induction cs with
  | nil => rfl
  | cons c cs ih =>
    rw [List.map_cons]
    rcases callEffect_cases x c with ⟨e, h, -, he⟩ | ⟨s, h, -, he, hs⟩
    · rw [he, List.filterMap_cons_none rfl, List.filter_cons_of_neg (by simp [h]), ih]
    · have hskipped : CallEffect.skipped? (.skipped s) = some s := rfl
      rw [he, List.filterMap_cons_some hskipped, List.filter_cons_of_pos (by simp [h]),
        List.map_cons, List.map_cons, ih, hs]

theorem kind_skipped_calls (x : Index) (cs : List CallInput) :
    ∀ s ∈ (cs.map x.callEffect).filterMap CallEffect.skipped?, s.kind = "call" := by
  intro s hs
  have hitem := List.mem_map_of_mem (f := Skipped.item) hs
  rw [skipped_calls] at hitem
  obtain ⟨c, -, hc⟩ := List.mem_map.1 hitem
  unfold Skipped.kind
  rw [← hc]
  rfl

/-- A call names an edge or none. -/
theorem length_edges_add (x : Index) (cs : List CallInput) :
    (cs.filterMap x.edgeOf?).length + (cs.filter fun c => (x.edgeOf? c).isNone).length =
      cs.length := by
  induction cs with
  | nil => rfl
  | cons c cs ih =>
    cases h : x.edgeOf? c with
    | none =>
      rw [List.filterMap_cons_none h, List.filter_cons_of_pos (by simp [h]), List.length_cons,
        List.length_cons, ← ih]
      omega
    | some e =>
      rw [List.filterMap_cons_some h, List.filter_cons_of_neg (by simp [h]), List.length_cons,
        List.length_cons, ← ih]
      omega

/-! ## Reports -/

/-- **What a report says of its batch**: each item counted once, the rows that were added, and the edges
of the calls whose ends are both stored after the methods of the batch. -/
structure Accounts (x : Index) (b : Batch) (y : Index) (r : Report) : Prop where
  methods : r.methodsInserted + r.methodsUpdated + r.skipped.countP (fun s => s.kind = "method") =
    b.methods.length
  calls : r.callsInserted + r.skipped.countP (fun s => s.kind = "call") = b.calls.length
  classes : r.classes = b.classes.toFinset.card
  methodRows : y.methods.length = x.methods.length + r.methodsInserted
  callRows : y.calls.length = x.calls.length + r.callsInserted
  project : (y.projectByName? b.project).map Project.id = some r.projectId
  document : (y.documentByPath? b.document).map Document.id = some r.documentId
  skipped : ∃ methods calls, r.skipped = methods ++ calls ∧
    methods = ((b.methods.filter fun m => m.signature ∉ signatures x.methods).filterMap fun m =>
      unplaced? b.classes m.signature) ∧
    calls.map Skipped.item = (b.calls.filter fun c => (y.edgeOf? c).isNone).map callItem
  edges : ∃ added, y.calls = x.calls ++ added ∧ added.map ends = b.calls.filterMap y.edgeOf?

/-- A list of skipped items of one kind counts as a whole for that kind, and not for another one. -/
theorem countP_kind {ss : List Skipped} {kind : String} (h : ∀ s ∈ ss, s.kind = kind)
    (other : String) :
    ss.countP (fun s => s.kind = other) = if kind = other then ss.length else 0 := by
  split
  · rename_i he
    rw [List.countP_eq_length]
    intro s hs
    simp [h s hs, he]
  · rename_i hne
    rw [List.countP_eq_zero]
    intro s hs
    simp [h s hs, hne]

/-- Each class counts once. -/
theorem card_classes (names : List String) : names.eraseDups.length = names.toFinset.card := by
  have hsame : names.toFinset = names.eraseDups.toFinset := by
    ext name
    rw [List.mem_toFinset, List.mem_toFinset, List.mem_eraseDups]
  rw [hsame, List.toFinset_card_of_nodup (nodup_eraseDups names)]

namespace Written

/-- A new method is written unless it cannot be placed. -/
theorem place_error_iff (h : Written x b y r) (hx : WellFormed x) (signature : String)
    (reason : Skipped) : place (y.listedClass? b.classes) signature = .error reason ↔
      unplaced? b.classes signature = some reason := by
  unfold place unplaced?
  cases splitSignature signature with
  | none => simp
  | some parts =>
    dsimp only
    unfold listedClass?
    by_cases hc : parts.owner ∈ b.classes
    · cases hfind : y.classByName? parts.owner with
      | none => exact absurd (h.class_mem hx _ hc) (find?_key_none hfind)
      | some c => simp [hc]
    · simp [hc]

/-- **The skipped methods** are those that are new and cannot be placed, in the order of the batch. -/
theorem skippedMethods (h : Written x b y r) (hx : WellFormed x) :
    (effects (y.listedClass? b.classes) x.methods b.methods).filterMap MethodEffect.skipped? =
      (b.methods.filter fun m => m.signature ∉ signatures x.methods).filterMap fun m =>
        unplaced? b.classes m.signature :=
  skipped_effects (h.place_error_iff hx) x.methods b.methods

theorem kind_skippedMethods (h : Written x b y r) (hx : WellFormed x) :
    ∀ s ∈ (effects (y.listedClass? b.classes) x.methods b.methods).filterMap
      MethodEffect.skipped?, s.kind = "method" := by
  intro s hs
  rw [h.skippedMethods hx] at hs
  obtain ⟨m, -, hm⟩ := List.mem_filterMap.1 hs
  unfold Skipped.kind
  rw [item_unplaced? hm]

/-- **The report of a written batch adds up.** -/
theorem accounts (h : Written x b y r) (hx : WellFormed x) (hy : WellFormed y) :
    Accounts x b y r := by
  have hcount := effects_count (effects (y.listedClass? b.classes) x.methods b.methods)
  rw [length_effects, ← h.methodsInserted, ← h.methodsUpdated] at hcount
  have hcallItems := skipped_calls y b.calls
  have hlength := congrArg List.length hcallItems
  rw [List.length_map, List.length_map] at hlength
  have hms := h.kind_skippedMethods hx
  have hcs := kind_skipped_calls y b.calls
  have hinserted := h.callsInserted
  rw [countP_inserted_calls] at hinserted
  obtain ⟨added, hadded, hends⟩ := appendEdges_eq x.calls (y.edges b.calls)
  rw [edges_eq_filterMap] at hends
  refine ⟨?_, ?_, ?_, ?_, ?_, ?_, ?_, ⟨_, _, h.skipped, h.skippedMethods hx, hcallItems⟩,
    ⟨added, h.calls.trans hadded, hends⟩⟩
  · rw [h.skipped, List.countP_append, countP_kind hms, countP_kind hcs, if_pos rfl,
      if_neg (by decide)]
    exact hcount
  · rw [h.skipped, List.countP_append, countP_kind hms, countP_kind hcs, if_pos rfl,
      if_neg (by decide), hinserted, hlength, Nat.zero_add]
    exact length_edges_add y b.calls
  · rw [h.classCount, card_classes]
  · rw [h.methods, length_putMethods, h.methodsInserted]
  · rw [h.calls, hadded, List.length_append, hinserted, ← hends, List.length_map]
  · obtain ⟨p, hp, hname, hid⟩ := h.project
    unfold projectByName?
    rw [← hname, hy.projects.find?_key hp, Option.map_some, hid]
  · obtain ⟨d, hd, hpath, hid⟩ := h.document
    unfold documentByPath?
    rw [← hpath, hy.documents.find?_key hd, Option.map_some, hid]

end Written

/-- **Another order of the calls** changes only the order of the new edges and of the skipped calls. -/
structure Reordered (x y : Index) (r : Report) (y' : Index) (r' : Report) : Prop where
  entities : SameEntities y y'
  report : r' = { r with skipped := r'.skipped }
  edges : ∃ added added', y.calls = x.calls ++ added ∧ y'.calls = x.calls ++ added' ∧
    (added'.map ends).Perm (added.map ends)
  skipped : ∃ methods calls calls', r.skipped = methods ++ calls ∧ r'.skipped = methods ++ calls' ∧
    (∀ s ∈ methods, s.kind = "method") ∧ (∀ s ∈ calls, s.kind = "call") ∧ calls'.Perm calls

theorem Written.reordered {cs : List CallInput} (h : Written x b y r)
    (h' : Written x { b with calls := cs } y' r') (hx : WellFormed x) (hy : WellFormed y)
    (hcs : cs.Perm b.calls) : Reordered x y r y' r' := by
  obtain ⟨hsame, hreport⟩ := h.congr_entities h' hy (.refl x)
  have heffects : (cs.map y'.callEffect).Perm (b.calls.map y.callEffect) := by
    rw [callEffect_congr hsame.methods.symm]
    exact hcs.map _
  have hedges : (y'.edges cs).Perm (y.edges b.calls) := by
    rw [edges_congr hsame.methods.symm]
    exact hcs.filterMap _
  have hinserted : r'.callsInserted = r.callsInserted := by
    rw [h.callsInserted, h'.callsInserted]
    exact heffects.countP_eq _
  obtain ⟨added, hadded, hends⟩ := appendEdges_eq x.calls (y.edges b.calls)
  obtain ⟨added', hadded', hends'⟩ := appendEdges_eq x.calls (y'.edges cs)
  refine ⟨hsame, by rw [← hinserted]; exact hreport, ?_, ?_⟩
  · refine ⟨added, added', h.calls.trans hadded, h'.calls.trans hadded', ?_⟩
    rw [hends, hends']
    exact hedges
  · have hskipped := h'.skipped
    rw [listedClass?_congr hsame.classes.symm] at hskipped
    exact ⟨_, _, _, h.skipped, hskipped, h.kind_skippedMethods hx, kind_skipped_calls _ _,
      heffects.filterMap _⟩

/-- A batch stays valid when its calls change places. -/
theorem valid_of_perm {cs : List CallInput} (hb : b.Valid) (hcs : cs.Perm b.calls) :
    Batch.Valid { b with calls := cs } :=
  ⟨hb.project, hb.document, hb.classes, hb.methods, fun c hc => hb.calls c (hcs.mem_iff.1 hc)⟩

/-- **The report of an ingest adds up.** Let a batch be written, whatever else the database refuses. The
methods of the batch are those inserted, updated and skipped, and its calls those inserted and skipped;
`classes` counts the distinct names. The tables of methods and of calls grow by what was inserted, and
the ids are those of the rows with the name and the path of the batch. Skipped methods are reported
first, then skipped calls, each in the order of the batch. A method is skipped if it was not stored
before and has no class part, or a class that the batch does not list; a call is skipped if it names no
edge. The new edges are those of the calls whose caller is stored and whose callee resolves once the
methods are written, in the order of the batch. So with its calls in another order the batch is written
too, if nothing is refused, and whenever it is written, only the new edges and the skipped calls stand
in another order. -/
theorem ingest_accounts (hx : Reachable x) (h : x.ingest refuse b = (y, .ok r)) :
    Accounts x b y r ∧ ∀ cs, cs.Perm b.calls →
      (∃ y' r', x.ingest .never { b with calls := cs } = (y', .ok r')) ∧
      ∀ refuse' y' r', x.ingest refuse' { b with calls := cs } = (y', .ok r') →
        Reordered x y r y' r' := by
  have hwx := hx.wellFormed
  obtain ⟨hb, hw⟩ := written_of_ingest hwx h
  have hwy := hw.wellFormed hwx hb
  refine ⟨hw.accounts hwx hwy, fun cs hcs => ⟨?_, ?_⟩⟩
  · obtain ⟨ws, r', hj⟩ := exists_journal x { b with calls := cs }
    have hnone : ws.findSome? Refusal.never = none := by simp [Refusal.never]
    have hrun := ingest_journal .never (valid_of_perm hb hcs) hj
    rw [hnone] at hrun
    exact ⟨_, r', hrun⟩
  · intro refuse' y' r' h'
    obtain ⟨-, hw'⟩ := written_of_ingest hwx h'
    exact hw.reordered hw' hwx hwy hcs

/-- A batch with a repeated class and a repeated signature. One of its methods is skipped, and so are
three of its calls; a callee is named without its parameters, and one is only written by this batch. -/
theorem ingest_accounts_repeated :
    let other : Batch := ⟨"demo", "Old.java", ["Old"], [⟨"void Old.f()", "old", none, none⟩], []⟩
    let b : Batch := ⟨"demo", "A.java", ["A", "B", "A"],
      [⟨"void A.f()", "first", some 1, some 2⟩, ⟨"void C.h()", "", none, none⟩,
        ⟨"void A.f()", "second", none, some 4⟩, ⟨"void B.g(int)", "", none, none⟩],
      [⟨"void A.f()", "void B.g"⟩, ⟨"void C.h()", "void A.f"⟩, ⟨"void A.f()", "void D.i"⟩,
        ⟨"void B.g(int)", "void Old.f"⟩, ⟨"void B.g", "void A.f"⟩, ⟨"void A.f()", "void A.f"⟩]⟩
    let r : Report := ⟨1, 2, 2, 2, 1, 3, [.classNotListed "void C.h()" "C",
      .callerNotIndexed "void C.h()" "void A.f", .calleeUnresolved "void A.f()" "void D.i",
      .callerNotIndexed "void B.g" "void A.f"]⟩
    let x := Index.run .empty [(.never, .ingest other)]
    let y := (x.ingest .never b).1
    let y' := (x.ingest .never { b with calls := b.calls.reverse }).1
    let r' : Report := ⟨1, 2, 2, 2, 1, 3, [.classNotListed "void C.h()" "C",
      .callerNotIndexed "void B.g" "void A.f", .calleeUnresolved "void A.f()" "void D.i",
      .callerNotIndexed "void C.h()" "void A.f"]⟩
    x.ingest .never b = (y, .ok r) ∧
      x.ingest .never { b with calls := b.calls.reverse } = (y', .ok r') ∧
      Accounts x b y r ∧ Reordered x y r y' r' := by
  intro other b r x y y' r'
  have hx : Reachable x := Reachable.empty.run _
  have h : x.ingest .never b = (y, .ok r) := by decide +kernel
  have h' : x.ingest .never { b with calls := b.calls.reverse } = (y', .ok r') := by decide +kernel
  obtain ⟨haccounts, horder⟩ := ingest_accounts hx h
  exact ⟨h, h', haccounts, (horder _ (List.reverse_perm _)).2 _ _ _ h'⟩

end Index

end CallIndex
