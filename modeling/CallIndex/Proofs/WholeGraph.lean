import CallIndex.Proofs.AllOrNothing
import CallIndex.Proofs.GatheredEdges
import CallIndex.Proofs.Neighbours

/-!
# The whole graph and the queries about one method

The whole graph comes from one join and from texts, the queries from two other joins. They agree.

* `Refusal.KeepsWidth`: the database keeps ids of 64 bits. Then every method has such an id
  (`idsFit_run`).
* `mem_edgePairs_fst`, `mem_edgePairs_snd`: each side of the join has the linked methods, however often,
  whatever stands on the other side.
* `Index.Describes`: a row of the whole graph is about a method, its home and its neighbours.
* `fullGraph_describes`: **the whole graph has one row for each method**, in ascending order, each with
  the neighbours that the queries answer with.
-/

namespace CallIndex

open Json

/-- The database keeps ids as whole numbers of 64 bits: it inserts no row with another one. -/
def Refusal.KeepsWidth (refuse : Refusal) : Prop :=
  ∀ row, refuse (.insert row) = none → Width.signed64.holds row.id = true

/-- The database is full when the ids of 64 bits are used up. -/
def Refusal.outOfIds : Refusal
  | .insert row =>
    if Width.signed64.holds row.id then none else some (.rejected "database or disk is full")
  | _ => none

theorem Refusal.keepsWidth_outOfIds : outOfIds.KeepsWidth := by
  intro row h
  have hrow : (if Width.signed64.holds row.id then none else some _) = none := h
  by_cases hid : Width.signed64.holds row.id = true
  · exact hid
  · rw [if_neg hid] at hrow
    cases hrow

/-- A write to a table keeps what all its ids have, if the id of a new row has it. -/
theorem WriteEvent.forall_mem_edit {α : Type} {id : α → RowId} {row : α} {rows : List α}
    {P : RowId → Prop} {event : WriteEvent} (h : ∀ r ∈ rows, P (id r))
    (hrow : event = .insert → P (id row)) : ∀ r ∈ event.edit id row rows, P (id r) := by
  intro r hr
  cases event with
  | insert =>
    rcases List.mem_append.1 hr with hr | hr
    · exact h r hr
    · rw [List.mem_singleton.1 hr]
      exact hrow rfl
  | update =>
    -- an updated row has the id of the row that it replaces
    obtain ⟨s, hs, rfl⟩ := List.mem_map.1 hr
    split
    · rename_i he
      exact he ▸ h s hs
    · exact h s hs
  | delete => exact h r (List.mem_of_mem_filter hr)

namespace Index

variable {x : Index} {m : Method}

/-! ## Ids of 64 bits -/

/-- Every id of a method is a whole number of 64 bits. -/
def IdsFit (x : Index) : Prop := ∀ m ∈ x.methods, Width.signed64.holds m.id = true

/-- A write keeps this, if a new row has such an id. -/
theorem idsFit_perform (hx : IdsFit x) {w : Write}
    (hw : w.event = .insert → Width.signed64.holds w.row.id = true) : IdsFit (x.perform w) := by
  unfold perform
  cases hrow : w.row <;> rw [hrow] at hw
  case ofMethod row =>
    exact WriteEvent.forall_mem_edit (P := fun id => Width.signed64.holds id = true) hx hw
  all_goals exact hx

section KeepsWidth

variable {P : Index → Prop} {refuse : Refusal}
  (hperform : ∀ {x : Index} {w : Write},
    (w.event = .insert → Width.signed64.holds w.row.id = true) → P x → P (x.perform w))

include hperform

/-- What each write keeps that inserts no id of more bits, a journal keeps. -/
theorem performAll_keepsWidth (hrefuse : refuse.KeepsWidth) {ws : List Write}
    (hws : ∀ w ∈ ws, refuse w = none) (hx : P x) : P (x.performAll ws) := by
  induction ws generalizing x with
  | nil => exact hx
  | cons w ws ih =>
    obtain ⟨hw, hws⟩ := List.forall_mem_cons.1 hws
    refine ih hws (hperform (fun hinsert => ?_) hx)
    cases w with
    | insert row => exact hrefuse row hw
    | update => cases hinsert
    | delete => cases hinsert

/-- What each write keeps that inserts no id of more bits, a batch keeps, written or refused. -/
theorem ingest_keepsWidth (hrefuse : refuse.KeepsWidth) (x : Index) (b : Batch) (hx : P x) :
    P (x.ingest refuse b).1 := by
  rcases ingest_cases refuse x b with ⟨e, he⟩ | ⟨-, -, -, hb, -⟩
  · rw [he]; exact hx
  · obtain ⟨ws, r, hj⟩ := exists_journal x b
    rw [ingest_journal refuse hb hj]
    cases hws : ws.findSome? refuse with
    | some fault => exact hx
    | none => exact performAll_keepsWidth hperform hrefuse (List.findSome?_eq_none_iff.1 hws) hx

/-- What each write keeps that inserts no id of more bits, every run of operations keeps. -/
theorem run_keepsWidth (hempty : P .empty) {ops : List (Refusal × Operation)}
    (hops : ∀ op ∈ ops, op.1.KeepsWidth) (hx : P x) : P (x.run ops) := by
  induction ops generalizing x with
  | nil => exact hx
  | cons op ops ih =>
    obtain ⟨hop, hops⟩ := List.forall_mem_cons.1 hops
    exact ih hops (apply_induct hempty (ingest_keepsWidth hperform hop) hx op.2)

end KeepsWidth

theorem idsFit_run {ops : List (Refusal × Operation)} (hops : ∀ op ∈ ops, op.1.KeepsWidth)
    (hx : IdsFit x) : IdsFit (x.run ops) :=
  run_keepsWidth (P := IdsFit) (fun hw hx => idsFit_perform hx hw) (fun _ hm => nomatch hm) hops hx

/-! ## The join -/

section Join

variable {α β : Type}

theorem orNothing_ne_nil (as : List α) : orNothing as ≠ [] := by
  cases as <;> simp [orNothing]

theorem some_mem_orNothing {as : List α} {a : α} : some a ∈ orNothing as ↔ a ∈ as := by
  cases as <;> simp [orNothing]

theorem mem_pairs {as : List α} {bs : List β} {p : α × β} :
    (p ∈ as.flatMap fun a => bs.map fun b => (a, b)) ↔ p.1 ∈ as ∧ p.2 ∈ bs :=
  List.pair_mem_product

/-- What stands on the left of a product, however much stands on the right. -/
theorem mem_pairs_fst {as : List α} {bs : List β} (hbs : bs ≠ []) {a : α} :
    a ∈ (as.flatMap fun a => bs.map fun b => (a, b)).map Prod.fst ↔ a ∈ as := by
  obtain ⟨b, hb⟩ := List.exists_mem_of_ne_nil bs hbs
  rw [List.mem_map]
  constructor
  · rintro ⟨p, hp, rfl⟩
    exact (mem_pairs.1 hp).1
  · intro ha
    exact ⟨(a, b), mem_pairs.2 ⟨ha, hb⟩, rfl⟩

theorem mem_pairs_snd {as : List α} {bs : List β} (has : as ≠ []) {b : β} :
    b ∈ (as.flatMap fun a => bs.map fun b => (a, b)).map Prod.snd ↔ b ∈ bs := by
  obtain ⟨a, ha⟩ := List.exists_mem_of_ne_nil as has
  rw [List.mem_map]
  constructor
  · rintro ⟨p, hp, rfl⟩
    exact (mem_pairs.1 hp).2
  · intro hb
    exact ⟨(a, b), mem_pairs.2 ⟨ha, hb⟩, rfl⟩

end Join

end Index

/-- A method as the whole graph lists it. -/
def Method.edgeRef (m : Method) : EdgeRef := ⟨m.id, m.signature⟩

/-- A neighbour as the whole graph lists it. -/
def MethodRef.edgeRef (r : MethodRef) : EdgeRef := ⟨r.methodId, r.methodSignature⟩

namespace Index

variable {near far : MethodCall → RowId} {self : RowId}

/-- One side of the join has the linked methods. -/
theorem mem_side_iff (hx : WellFormed x)
    (hfar : ∀ c ∈ x.calls, far c ∈ x.methods.map Method.id) {e : EdgeRef} :
    (some e ∈ (orNothing (x.calls.filter fun c => near c = self)).map fun c =>
      c.bind fun c => (x.methodById? (far c)).map fun m => ⟨m.id, m.signature⟩) ↔
      e ∈ (x.linked near far self).map Method.edgeRef := by
  simp only [List.mem_map]
  constructor
  · -- the far end of a call is stored, so the join finds its method
    rintro ⟨c, hc, he⟩
    obtain ⟨c, rfl, hedge⟩ := Option.bind_eq_some_iff.1 he
    obtain ⟨hc, hnear⟩ := List.mem_filter.1 (some_mem_orNothing.1 hc)
    obtain ⟨k, hk, hid⟩ := List.mem_map.1 (hfar c hc)
    rw [← hid, methodById?_of_mem hx hk] at hedge
    cases hedge
    exact ⟨k, mem_linked.2 ⟨hk, c, hc, by simpa using hnear, hid.symm⟩, rfl⟩
  · rintro ⟨k, hk, rfl⟩
    obtain ⟨hk, c, hc, hnear, hid⟩ := mem_linked.1 hk
    refine ⟨some c, some_mem_orNothing.2 (List.mem_filter.2 ⟨hc, by simpa using hnear⟩), ?_⟩
    rw [Option.bind_some, hid, methodById?_of_mem hx hk]
    rfl

theorem mem_edgePairs_fst (hx : WellFormed x) {e : EdgeRef} :
    some e ∈ (x.edgePairs self).map Prod.fst ↔
      e ∈ (x.linked MethodCall.callerId MethodCall.calleeId self).map Method.edgeRef := by
  unfold edgePairs
  rw [mem_pairs_fst (by simpa using orNothing_ne_nil _)]
  exact mem_side_iff hx fun c hc => (hx.callEnds c hc).2

theorem mem_edgePairs_snd (hx : WellFormed x) {e : EdgeRef} :
    some e ∈ (x.edgePairs self).map Prod.snd ↔
      e ∈ (x.linked MethodCall.calleeId MethodCall.callerId self).map Method.edgeRef := by
  unfold edgePairs
  rw [mem_pairs_snd (by simpa using orNothing_ne_nil _)]
  exact mem_side_iff hx fun c hc => (hx.callEnds c hc).1

end Index

/-! ## The order of edges -/

namespace EdgeRef

theorem le_iff {a b : EdgeRef} :
    a.le b = true ↔ a.id < b.id ∨ (a.id = b.id ∧ a.signature ≤ b.signature) := by
  simp [EdgeRef.le]

theorem le_trans (a b c : EdgeRef) (hab : a.le b = true) (hbc : b.le c = true) :
    a.le c = true := by
  rw [le_iff] at *
  rcases hab with hab | ⟨hab, hab'⟩ <;> rcases hbc with hbc | ⟨hbc, hbc'⟩
  · exact Or.inl (Int.lt_trans hab hbc)
  · exact Or.inl (hbc ▸ hab)
  · exact Or.inl (hab ▸ hbc)
  · exact Or.inr ⟨hab.trans hbc, String.le_trans hab' hbc'⟩

theorem le_total (a b : EdgeRef) : (a.le b || b.le a) = true := by
  rw [Bool.or_eq_true, le_iff, le_iff]
  rcases Int.lt_trichotomy a.id b.id with h | h | h
  · exact Or.inl (Or.inl h)
  · exact (String.le_total a.signature b.signature).imp (fun hs => Or.inr ⟨h, hs⟩)
      fun hs => Or.inr ⟨h.symm, hs⟩
  · exact Or.inr (Or.inl h)

theorem le_antisymm {a b : EdgeRef} (hab : a.le b = true) (hba : b.le a = true) : a = b := by
  rw [le_iff] at *
  rcases hab with hab | ⟨hid, hab⟩ <;> rcases hba with hba | ⟨hid', hba⟩
  · exact absurd hba (Int.lt_asymm hab)
  · exact absurd hab (hid' ▸ Int.lt_irrefl _)
  · exact absurd hba (hid ▸ Int.lt_irrefl _)
  · cases a
    cases b
    exact congr (congrArg _ hid) (String.le_antisymm hab hba)

/-- Edges in ascending order of ids are what is left of any edges with the same members, when the
repeated ones are erased and the others sorted. -/
theorem mergeSort_eraseDups_eq {es l : List EdgeRef} (hmem : ∀ e, e ∈ es ↔ e ∈ l)
    (hl : l.Pairwise fun a b => a.id < b.id) : es.eraseDups.mergeSort EdgeRef.le = l := by
  -- both lists are sorted and have the same members, and no two edges are as low as each other
  have hnodup : l.Nodup := hl.imp fun h he => Int.ne_of_lt h (congrArg EdgeRef.id he)
  have hperm : es.eraseDups.Perm l :=
    (List.perm_ext_iff_of_nodup (nodup_eraseDups es) hnodup).2 fun e =>
      List.mem_eraseDups.trans (hmem e)
  have hsorted : l.Pairwise fun a b => a.le b = true := hl.imp fun h => le_iff.2 (Or.inl h)
  have hmerged : (es.eraseDups.mergeSort EdgeRef.le).Pairwise fun a b => a.le b = true :=
    List.pairwise_mergeSort le_trans le_total _
  exact ((List.mergeSort_perm _ _).trans hperm).eq_of_pairwise (fun _ _ _ _ => le_antisymm) hmerged
    hsorted

end EdgeRef

namespace Index

/-! ## Rows -/

/-- A row of the whole graph is about a method: with its own texts, its home, and the neighbours that
the queries about it answer with, each by id and signature. -/
structure Describes (x : Index) (m : Method) (row : GraphRow) : Prop where
  methodId : row.methodId = m.id
  methodName : row.methodName = m.name
  methodSignature : row.methodSignature = m.signature
  methodBody : row.methodBody = m.body
  home : ∃ c d p, Home x m c d p ∧ row.classId = c.id ∧ row.className = c.name ∧
    row.documentId = d.id ∧ row.documentPath = d.path ∧ row.projectId = p.id ∧
    row.projectName = p.name
  callees : ∃ refs, x.callees m.id = .ok refs ∧ row.callees = refs.map MethodRef.edgeRef ∧
    List.Forall₂ (Refers x) (x.linked MethodCall.callerId MethodCall.calleeId m.id) refs
  callers : ∃ refs, x.callers m.id = .ok refs ∧ row.callers = refs.map MethodRef.edgeRef ∧
    List.Forall₂ (Refers x) (x.linked MethodCall.calleeId MethodCall.callerId m.id) refs

namespace Describes

variable {row : GraphRow} {refs : List MethodRef}

theorem callees_eq (h : Describes x m row) (hrefs : x.callees m.id = .ok refs) :
    row.callees = refs.map MethodRef.edgeRef := by
  obtain ⟨refs', hrefs', hrow, -⟩ := h.callees
  rw [hrefs'] at hrefs
  cases hrefs
  exact hrow

theorem callers_eq (h : Describes x m row) (hrefs : x.callers m.id = .ok refs) :
    row.callers = refs.map MethodRef.edgeRef := by
  obtain ⟨refs', hrefs', hrow, -⟩ := h.callers
  rw [hrefs'] at hrefs
  cases hrefs
  exact hrow

end Describes

/-- A neighbour is listed as the method that it refers to. -/
theorem Refers.edgeRef {r : MethodRef} (h : Refers x m r) : r.edgeRef = m.edgeRef := by
  unfold MethodRef.edgeRef Method.edgeRef
  rw [h.methodId, h.signature]

/-- Gathered edges are the neighbours of a query, if they have the same members. -/
theorem gatherEdges_refs (hx : WellFormed x) (hids : IdsFit x) {edges : List (Option EdgeRef)}
    {refs : List MethodRef} (hrefs : List.Forall₂ (Refers x) (x.linked near far self) refs)
    (hmem : ∀ e, some e ∈ edges ↔ e ∈ (x.linked near far self).map Method.edgeRef) :
    gatherEdges edges = .ok (refs.map MethodRef.edgeRef) := by
  have hedge : ∀ e, e ∈ edges.filterMap id ↔
      e ∈ (x.linked near far self).map Method.edgeRef := by
    intro e
    rw [← hmem]
    simp
  have hsorted : ((x.linked near far self).map Method.edgeRef).Pairwise fun a b => a.id < b.id :=
    List.pairwise_map.2 (ascending_linked hx)
  rw [map_eq_of_forall₂ hrefs fun _ _ => Refers.edgeRef, gatherEdges_eq,
    EdgeRef.mergeSort_eraseDups_eq hedge hsorted]
  intro e he
  obtain ⟨k, hk, rfl⟩ := List.mem_map.1 ((hedge e).1 he)
  exact hids k (mem_linked.1 hk).1

/-- **Every stored method has a row**, and the row describes it. -/
theorem exists_graphRow (hx : WellFormed x) (hids : IdsFit x) (hm : m ∈ x.methods) :
    ∃ row, x.graphRow? m = some (.ok row) ∧ Describes x m row := by
  obtain ⟨c, d, p, h⟩ := exists_home hx hm
  obtain ⟨callees, hcallees, hout⟩ := callees_linked hx hm
  obtain ⟨callers, hcallers, hinto⟩ := callers_linked hx hm
  -- each side is gathered for itself: the other one only repeats what stands there
  have hgatherOut := gatherEdges_refs hx hids hout fun e => mem_edgePairs_fst hx
  have hgatherInto := gatherEdges_refs hx hids hinto fun e => mem_edgePairs_snd hx
  refine ⟨⟨p.id, p.name, d.id, d.path, c.id, c.name, m.id, m.name, m.signature, m.body,
    callees.map MethodRef.edgeRef, callers.map MethodRef.edgeRef⟩, ?_, rfl, rfl, rfl, rfl,
    ⟨c, d, p, h, rfl, rfl, rfl, rfl, rfl, rfl⟩, ⟨callees, hcallees, rfl, hout⟩,
    ⟨callers, hcallers, rfl, hinto⟩⟩
  unfold graphRow?
  simp only [h.classById? hx, h.documentById? hx, h.projectById? hx, bind, Option.bind, Except.bind,
    hgatherOut, hgatherInto]

/-- The methods are stored in the order of their ids. -/
theorem methodsById_eq (hx : WellFormed x) : x.methodsById = x.methods := by
  unfold methodsById
  refine List.mergeSort_of_pairwise (hx.methods.ascending.imp ?_)
  intro a b h
  exact decide_eq_true (Int.le_of_lt h)

theorem exists_graphRows (hx : WellFormed x) (hids : IdsFit x) {ms : List Method}
    (hms : ∀ m ∈ ms, m ∈ x.methods) :
    ∃ rows, (ms.filterMap x.graphRow?).mapM id = .ok rows ∧
      List.Forall₂ (Describes x) ms rows := by
  induction ms with
  | nil => exact ⟨[], rfl, .nil⟩
  | cons m ms ih =>
    obtain ⟨row, hrow, hdescribes⟩ := exists_graphRow hx hids (hms m List.mem_cons_self)
    obtain ⟨rows, hrows, hrest⟩ := ih fun m' hm' => hms m' (List.mem_cons_of_mem _ hm')
    refine ⟨row :: rows, ?_, .cons hdescribes hrest⟩
    rw [List.filterMap_cons_some hrow, List.mapM_cons, hrows]
    rfl

/-- **The whole graph describes each stored method**, in the order of the ids. -/
theorem exists_fullGraph (hx : WellFormed x) (hids : IdsFit x) :
    ∃ rows, x.fullGraph = .ok rows ∧ List.Forall₂ (Describes x) x.methods rows := by
  obtain ⟨rows, hrows, hall⟩ := exists_graphRows hx hids fun m hm => hm
  refine ⟨rows, ?_, hall⟩
  unfold fullGraph
  rw [methodsById_eq hx]
  exact hrows

/-- **The whole graph agrees with the queries about one method.** Whatever was done to the index, as
long as the database keeps ids of 64 bits, the whole graph has exactly one row for each stored method,
in ascending order of ids. No row is lost or doubled by the join, however many calls go out of the
method and into it. Its neighbours are those of `callees` and `callers`, in the same order, whatever
characters are in their signatures. -/
theorem fullGraph_describes {ops : List (Refusal × Operation)}
    (hops : ∀ op ∈ ops, op.1.KeepsWidth) (hrun : run .empty ops = x) :
    ∃ rows, x.fullGraph = .ok rows ∧ List.Forall₂ (Describes x) x.methods rows ∧
      rows.Pairwise fun r s => r.methodId < s.methodId := by
  have hx : WellFormed x := hrun ▸ (Reachable.empty.run ops).wellFormed
  have hids : IdsFit x := hrun ▸ idsFit_run hops fun _ hm => nomatch hm
  obtain ⟨rows, hrows, hall⟩ := exists_fullGraph hx hids
  exact ⟨rows, hrows, hall, ascending_of_map_eq
    (map_eq_of_forall₂ hall fun _ _ => Describes.methodId) hx.methods.ascending⟩

/-- Two methods call each other, one of them calls itself, and calls are repeated. The signature of one
has a quote, a backslash, a null character and more. -/
theorem fullGraph_describes_parallel :
    let f := "void A.f(\"\\],\x7b\x00é)"
    let bs : List Batch := [⟨"demo", "A.java", ["A"],
      [⟨f, "one", none, none⟩, ⟨"void A.g()", "", some 1, none⟩],
      [⟨f, "void A.g"⟩, ⟨f, "void A.f"⟩, ⟨f, "void A.g()"⟩, ⟨"void A.g()", "void A.f"⟩,
        ⟨"void A.g()", "void A"⟩]⟩]
    let x := run .empty [(.outOfIds, .ingestAll bs)]
    x.calls.map ends = [(1, 2), (1, 1), (1, 2), (2, 1), (2, 1)] ∧
      ∃ row row', x.fullGraph = .ok [row, row'] ∧ row.methodSignature = f ∧
        row.callees = [⟨1, f⟩, ⟨2, "void A.g()"⟩] ∧ row.callers = [⟨1, f⟩, ⟨2, "void A.g()"⟩] ∧
        row'.callees = [⟨1, f⟩] ∧ row'.callers = [⟨1, f⟩] := by
  intro f bs x
  have hops : ∀ op ∈ [(Refusal.outOfIds, Operation.ingestAll bs)], op.1.KeepsWidth := by
    intro op hop
    rw [List.mem_singleton.1 hop]
    exact Refusal.keepsWidth_outOfIds
  obtain ⟨rows, hrows, hall, -⟩ := fullGraph_describes hops (x := x) rfl
  have hmethods : x.methods = [⟨1, 1, "f(\"\\],\x7b\x00é)", f, "one", none, none⟩,
      ⟨2, 1, "g()", "void A.g()", "", some 1, none⟩] := by decide +kernel
  rw [hmethods] at hall
  obtain _ | ⟨hrow, _ | ⟨hrow', _ | _⟩⟩ := hall
  have hout : x.callees 1 = .ok [⟨1, f, "A.java"⟩, ⟨2, "void A.g()", "A.java"⟩] := by
    decide +kernel
  have hinto : x.callers 1 = .ok [⟨1, f, "A.java"⟩, ⟨2, "void A.g()", "A.java"⟩] := by
    decide +kernel
  have hout' : x.callees 2 = .ok [⟨1, f, "A.java"⟩] := by decide +kernel
  have hinto' : x.callers 2 = .ok [⟨1, f, "A.java"⟩] := by decide +kernel
  exact ⟨by decide +kernel, _, _, hrows, hrow.methodSignature, hrow.callees_eq hout,
    hrow.callers_eq hinto, hrow'.callees_eq hout', hrow'.callers_eq hinto'⟩

end Index

end CallIndex
