import CallIndex.Proofs.Neighbours

/-!
# Calls seen from both ends

A stored call shows at each of its ends: the method that it leads to is a callee of the one that it
comes from, and that one a caller of the other.

* `Index.Calls`: some stored call leads from one id to another.
* `Index.Lists`: an answer lists just the stored methods with some property, each of them once, in
  ascending order of ids, with its own signature and the path of its own document.
* `lists_groupRefs`: the neighbours over the calls of a method list the methods at their far ends.
* `query_ok_iff`, `query_error_iff`: a query about a method answers for every stored id, and refuses any
  other one as not found.
* `Index.neighbours_exact`: **the callees and the callers of every id**, and that they mirror each
  other.
-/

namespace CallIndex

/-- What stands on the right of a related list is related to something on the left. -/
theorem exists_of_mem_right {α β : Type} {R : α → β → Prop} {as : List α} {bs : List β}
    (h : List.Forall₂ R as bs) {b : β} (hb : b ∈ bs) : ∃ a ∈ as, R a b := by
  induction h with
  | nil => cases hb
  | cons hab _ ih =>
    rcases List.mem_cons.1 hb with rfl | hb
    · exact ⟨_, List.mem_cons_self, hab⟩
    · obtain ⟨a, ha, hR⟩ := ih hb
      exact ⟨a, List.mem_cons_of_mem _ ha, hR⟩

theorem exists_of_mem_left {α β : Type} {R : α → β → Prop} {as : List α} {bs : List β}
    (h : List.Forall₂ R as bs) {a : α} (ha : a ∈ as) : ∃ b ∈ bs, R a b :=
  exists_of_mem_right h.flip ha

namespace Index

variable {x : Index} {m : Method} {id : RowId} {refs : List MethodRef} {P : RowId → Prop}

/-- Some stored call leads from the first id to the second. -/
def Calls (x : Index) (caller callee : RowId) : Prop :=
  ∃ c ∈ x.calls, c.callerId = caller ∧ c.calleeId = callee

/-- An answer lists the stored methods whose ids have a property. -/
structure Lists (x : Index) (P : RowId → Prop) (refs : List MethodRef) : Prop where
  ascending : refs.Pairwise fun r s => r.methodId < s.methodId
  mem_iff : ∀ r, r ∈ refs ↔ ∃ m ∈ x.methods, P m.id ∧ Refers x m r

/-! ## Stored methods -/

/-- A method has one home, so it is listed in one way only. -/
theorem Refers.unique (hx : WellFormed x) {r s : MethodRef} (hr : Refers x m r)
    (hs : Refers x m s) : r = s := by
  obtain ⟨c, d, p, hhome, hpath⟩ := hr.home
  obtain ⟨c', d', p', hhome', hpath'⟩ := hs.home
  have hd : some d = some d' := (hhome.documentOf? hx).symm.trans (hhome'.documentOf? hx)
  have hid : r.methodId = s.methodId := hr.methodId.trans hs.methodId.symm
  have hsig : r.methodSignature = s.methodSignature := hr.signature.trans hs.signature.symm
  have hpaths : r.documentPath = s.documentPath := by
    rw [hpath, hpath', Option.some.inj hd]
  cases r
  cases s
  simp_all

/-- **The neighbours over the calls of a method** list the methods at the far ends of its calls. -/
theorem lists_groupRefs (hx : WellFormed x) (near far : MethodCall → RowId)
    (hfar : ∀ c ∈ x.calls, far c ∈ x.methods.map Method.id) (id : RowId) :
    Lists x (fun b => ∃ c ∈ x.calls, near c = id ∧ far c = b)
      (groupRefs ((x.calls.filter fun c => near c = id).filterMap fun c => x.refOf? (far c))) := by
  have hlinked : List.Forall₂ (Refers x) (x.linked near far id) _ := groupRefs_linked hx hfar id
  refine ⟨pairwise_groupRefs _, ?_⟩
  intro r
  constructor
  · intro hr
    obtain ⟨m, hm, hrefers⟩ := exists_of_mem_right hlinked hr
    obtain ⟨hstored, hcall⟩ := mem_linked.1 hm
    exact ⟨m, hstored, hcall, hrefers⟩
  · rintro ⟨m, hstored, hcall, hrefers⟩
    obtain ⟨s, hs, hrefers'⟩ := exists_of_mem_left hlinked (mem_linked.2 ⟨hstored, hcall⟩)
    rw [hrefers.unique hx hrefers']
    exact hs

/-- A listed id is one of a stored method, and the answer lists all of them. -/
theorem Lists.mem_ids_iff (h : Lists x P refs) (hx : WellFormed x) {b : RowId} :
    b ∈ refs.map MethodRef.methodId ↔ b ∈ x.methods.map Method.id ∧ P b := by
  rw [List.mem_map, List.mem_map]
  constructor
  · rintro ⟨r, hr, rfl⟩
    obtain ⟨m, hm, hP, hrefers⟩ := (h.mem_iff r).1 hr
    rw [hrefers.methodId]
    exact ⟨⟨m, hm, rfl⟩, hP⟩
  · rintro ⟨⟨m, hm, rfl⟩, hP⟩
    obtain ⟨r, -, hrefers⟩ := exists_refOf? hx hm
    exact ⟨r, (h.mem_iff r).2 ⟨m, hm, hP, hrefers⟩, hrefers.methodId⟩

/-! ## Queries -/

/-- A query about a method answers for each stored id, and refuses any other one as not found. -/
theorem ensureMethod_bind {α : Type} (x : Index) (id : RowId) (answer : α) :
    (x.ensureMethod id >>= fun _ => Except.ok answer) =
      if id ∈ x.methods.map Method.id then .ok answer
      else .error (.notFound ("method id " ++ toString id)) := by
  unfold ensureMethod
  cases hfind : x.methodById? id with
  | some m =>
    have hid : m.id = id := by simpa using List.find?_some hfind
    have hstored : m ∈ x.methods := List.mem_of_find?_eq_some hfind
    rw [if_pos (hid ▸ List.mem_map_of_mem hstored)]
    rfl
  | none =>
    have hnew : id ∉ x.methods.map Method.id := by
      intro hid
      obtain ⟨m, hm, rfl⟩ := List.mem_map.1 hid
      simpa using List.find?_eq_none.1 hfind m hm
    rw [if_neg hnew]
    rfl

theorem query_error_iff {α : Type} {answer : α} {e : Error} :
    (x.ensureMethod id >>= fun _ => Except.ok answer) = .error e ↔
      id ∉ x.methods.map Method.id ∧ e = .notFound ("method id " ++ toString id) := by
  rw [ensureMethod_bind]
  by_cases hid : id ∈ x.methods.map Method.id
  · simp [hid]
  · simp [hid, eq_comm]

theorem query_ok_iff {α : Type} {answer a : α} :
    (x.ensureMethod id >>= fun _ => Except.ok answer) = .ok a ↔
      id ∈ x.methods.map Method.id ∧ a = answer := by
  rw [ensureMethod_bind]
  by_cases hid : id ∈ x.methods.map Method.id
  · simp [hid, eq_comm]
  · simp [hid]

/-- Callees are listed over the calls from a method. -/
theorem callees_lists (hx : WellFormed x) (h : x.callees id = .ok refs) :
    Lists x (fun b => x.Calls id b) refs := by
  obtain ⟨-, rfl⟩ := query_ok_iff.1 h
  exact lists_groupRefs hx MethodCall.callerId MethodCall.calleeId
    (fun c hc => (hx.callEnds c hc).2) id

/-- Callers are listed over the same calls, told from their other end. -/
theorem callers_lists (hx : WellFormed x) (h : x.callers id = .ok refs) :
    Lists x (fun a => x.Calls a id) refs := by
  obtain ⟨-, rfl⟩ := query_ok_iff.1 h
  have hlists := lists_groupRefs hx MethodCall.calleeId MethodCall.callerId
    (fun c hc => (hx.callEnds c hc).1) id
  simpa only [Calls, and_comm] using hlists

/-- **Callees and callers are exact, and mirror each other.** Both queries refuse an id just when no
method has it, as not found; a stored method without neighbours has an empty list. Otherwise they list
the methods at the other end of a stored call, each once, in ascending order of ids, with its own
signature and the path of its own document. So for stored methods `a` and `b`, `b` is among the callees
of `a` just when a call from `a` to `b` is stored, and just then `a` is among the callers of `b`,
however many such calls there are and also when `a` is `b`. -/
theorem neighbours_exact (hx : Reachable x) :
    (∀ a e, (x.callees a = .error e ↔
        a ∉ x.methods.map Method.id ∧ e = .notFound ("method id " ++ toString a)) ∧
      (x.callers a = .error e ↔
        a ∉ x.methods.map Method.id ∧ e = .notFound ("method id " ++ toString a))) ∧
    (∀ a callees, x.callees a = .ok callees → Lists x (fun b => x.Calls a b) callees) ∧
    (∀ b callers, x.callers b = .ok callers → Lists x (fun a => x.Calls a b) callers) ∧
    ∀ a ∈ x.methods.map Method.id, ∀ b ∈ x.methods.map Method.id,
      ∃ callees callers, x.callees a = .ok callees ∧ x.callers b = .ok callers ∧
        (b ∈ callees.map MethodRef.methodId ↔ x.Calls a b) ∧
        (a ∈ callers.map MethodRef.methodId ↔ x.Calls a b) := by
  have hwx := hx.wellFormed
  refine ⟨fun a e => ⟨query_error_iff, query_error_iff⟩, fun a _ => callees_lists hwx,
    fun b _ => callers_lists hwx, ?_⟩
  intro a ha b hb
  obtain ⟨callees, hcallees⟩ : ∃ refs, x.callees a = .ok refs := ⟨_, query_ok_iff.2 ⟨ha, rfl⟩⟩
  obtain ⟨callers, hcallers⟩ : ∃ refs, x.callers b = .ok refs := ⟨_, query_ok_iff.2 ⟨hb, rfl⟩⟩
  refine ⟨callees, callers, hcallees, hcallers, ?_, ?_⟩
  · rw [(callees_lists hwx hcallees).mem_ids_iff hwx, and_iff_right hb]
  · rw [(callers_lists hwx hcallers).mem_ids_iff hwx, and_iff_right ha]

/-- Parallel calls between two methods, a method that calls itself, and one that calls nothing in a
class of another document. -/
theorem neighbours_exact_parallel :
    let bs : List Batch :=
      [⟨"demo", "A.java", ["A"], [⟨"void A.f()", "", none, none⟩, ⟨"void A.g()", "", none, none⟩], []⟩,
      ⟨"demo", "B.java", ["B"], [⟨"void B.h()", "", none, none⟩],
        [⟨"void A.g()", "void B.h"⟩, ⟨"void A.g()", "void A.g"⟩, ⟨"void A.f()", "void B.h"⟩,
          ⟨"void A.g()", "void B.h()"⟩]⟩]
    let x := run .empty [(.never, .ingestAll bs)]
    x.callees 2 = .ok [⟨2, "void A.g()", "A.java"⟩, ⟨3, "void B.h()", "B.java"⟩] ∧
      x.callers 3 = .ok [⟨1, "void A.f()", "A.java"⟩, ⟨2, "void A.g()", "A.java"⟩] ∧
      x.Calls 2 3 ∧ x.Calls 2 2 ∧ ¬ x.Calls 1 2 ∧ x.callees 3 = .ok [] ∧
      x.callers 4 = .error (.notFound "method id 4") := by
  intro bs x
  obtain ⟨hrefused, -, -, hmirror⟩ :=
    neighbours_exact (Reachable.empty.run [(.never, .ingestAll bs)])
  have hout : x.callees 2 = .ok [⟨2, "void A.g()", "A.java"⟩, ⟨3, "void B.h()", "B.java"⟩] := by
    decide +kernel
  have hinto : x.callers 3 = .ok [⟨1, "void A.f()", "A.java"⟩, ⟨2, "void A.g()", "A.java"⟩] := by
    decide +kernel
  have hself : x.callers 2 = .ok [⟨2, "void A.g()", "A.java"⟩] := by decide +kernel
  have hids : ∀ a ∈ [1, 2, 3], a ∈ x.methods.map Method.id := by decide +kernel
  -- the answers tell which calls are stored
  obtain ⟨_, _, hout', hinto', -, h23⟩ := hmirror 2 (hids 2 (by decide)) 3 (hids 3 (by decide))
  obtain ⟨_, _, -, hself', -, h22⟩ := hmirror 2 (hids 2 (by decide)) 2 (hids 2 (by decide))
  obtain ⟨_, _, -, hself'', -, h12⟩ := hmirror 1 (hids 1 (by decide)) 2 (hids 2 (by decide))
  obtain rfl := Except.ok.inj (hinto.symm.trans hinto')
  obtain rfl := Except.ok.inj (hself.symm.trans hself')
  obtain rfl := Except.ok.inj (hself.symm.trans hself'')
  refine ⟨hout, hinto, h23.1 (by decide), h22.1 (by decide), fun h => ?_, by decide +kernel, ?_⟩
  · exact absurd (h12.2 h) (by decide)
  · exact (hrefused 4 _).2.2 ⟨by decide +kernel, rfl⟩

end Index

end CallIndex
