import CallIndex.Cli.Answer
import CallIndex.Proofs.Adjacency
import CallIndex.Proofs.CompleteContext
import CallIndex.Proofs.JsonRoundTrip
import CallIndex.Proofs.WholeGraph

/-!
# What the queries reply

A query asks the library for a value, and what is written of the value is what it answers in JSON. Nothing
of the value is lost in it.

* `Json.Legible`: a value that is told by its JSON form, which can be read again.
* `Index.NarrowIds`: every id has 64 bits. A database that keeps such ids leads to such indexes
  (`narrowIds_run`).
* `Cli.Query.Reply`, `Cli.Query.reply`: the value that the library replies to a query with.
* `Cli.Query.answer_reply`: an answer is the reply in JSON.
* `Cli.Query.reply_legible`: **every reply is legible**, whatever texts are stored.
-/

namespace CallIndex

open Json

namespace Json

/-! ## Legible values -/

/-- A value is told by its JSON form: no other value of its type has the same one. It has numbers of 64
bits only, and is nested no deeper than a bound, so its texts read back. -/
structure Legible {α : Type} [Encode α] (d : Nat) (a : α) : Prop where
  narrow : (encode a).Narrow
  shallow : (encode a).depth ≤ d
  unique : ∀ b : α, encode b = encode a → b = a

namespace Legible

variable {α : Type} [Encode α] {d : Nat}

theorem id {n : RowId} (h : Width.signed64.holds n = true) : Legible d n :=
  ⟨.whole h, Nat.zero_le d, fun _ he => Number.whole.inj (Value.number.inj he)⟩

theorem count {n : Nat} (h : Width.signed64.holds n = true) : Legible d n :=
  ⟨.whole h, Nat.zero_le d, fun _ he => Int.ofNat.inj (Number.whole.inj (Value.number.inj he))⟩

/-- A list is told by its items. -/
theorem list {as : List α} (h : ∀ a ∈ as, Legible d a) : Legible (d + 1) as := by
  refine ⟨narrow_list.2 fun a ha => (h a ha).narrow, ?_, ?_⟩
  · refine Value.depth_array_le.2 (List.forall_mem_map.2 fun a ha => (h a ha).shallow)
  · intro bs he
    have hitems : bs.map encode = as.map encode := Value.array.inj he
    clear he
    induction as generalizing bs with
    | nil => exact List.map_eq_nil_iff.1 hitems
    | cons a as ih =>
      obtain ⟨ha, has⟩ := List.forall_mem_cons.1 h
      obtain ⟨b, bs, rfl, hb, hbs⟩ := List.map_eq_cons_iff.1 hitems
      rw [ha.unique b hb, ih has bs hbs]

/-- A record is told by its members, if each of them has numbers of 64 bits and is nested less deep. -/
theorem object {members : α → List (String × Value)} {a : α}
    (hencode : ∀ b, encode b = .object (members b))
    (hparts : ∀ m ∈ members a, m.2.Narrow ∧ m.2.depth ≤ d)
    (hunique : ∀ b, members b = members a → b = a) : Legible (d + 1) a where
  narrow := hencode a ▸ Value.narrow_object.2 fun m hm => (hparts m hm).1
  shallow := hencode a ▸ Value.depth_object_le.2 fun m hm => (hparts m hm).2
  unique b h := hunique b (Value.object.inj (hencode a ▸ hencode b ▸ h))

end Legible

/-- A type that reads back is told by its JSON form. -/
theorem Lawful.legible {α : Type} [Codec α] [Lawful α] {d : Nat} (hd : (Codec.shape α).depth ≤ d)
    {a : α} (h : (encode a).Narrow) : Legible d a :=
  ⟨h, Nat.le_trans (Lawful.depth_le h) hd, fun _ => Lawful.encode_injective h⟩

theorem Lawful.legible_list {α : Type} [Codec α] [Lawful α] {d : Nat}
    (hd : (Codec.shape α).depth ≤ d) {as : List α} (h : ∀ a ∈ as, (encode a).Narrow) :
    Legible (d + 1) as :=
  .list fun a ha => Lawful.legible hd (h a ha)

end Json

/-! ## Ids of 64 bits -/

namespace Index

/-- Every id is a whole number of 64 bits. -/
structure NarrowIds (x : Index) : Prop where
  projects : ∀ p ∈ x.projects, Width.signed64.holds p.id = true
  documents : ∀ d ∈ x.documents, Width.signed64.holds d.id = true
  classes : ∀ c ∈ x.classes, Width.signed64.holds c.id = true
  methods : ∀ m ∈ x.methods, Width.signed64.holds m.id = true
  calls : ∀ c ∈ x.calls, Width.signed64.holds c.id = true

theorem narrowIds_empty : NarrowIds .empty := by
  constructor <;> exact fun _ h => nomatch h

theorem narrowIds_perform {x : Index} (hx : NarrowIds x) {w : Write}
    (hw : w.event = .insert → Width.signed64.holds w.row.id = true) : NarrowIds (x.perform w) := by
  unfold perform
  have hedit {α : Type} {id : α → RowId} {row : α} {rows : List α}
      (h : ∀ r ∈ rows, Width.signed64.holds (id r) = true)
      (hrow : w.event = .insert → Width.signed64.holds (id row) = true) :=
    WriteEvent.forall_mem_edit (P := fun id => Width.signed64.holds id = true) h hrow
  cases hrow : w.row <;> rw [hrow] at hw
  case ofProject => exact { hx with projects := hedit hx.projects hw }
  case ofDocument => exact { hx with documents := hedit hx.documents hw }
  case ofClass => exact { hx with classes := hedit hx.classes hw }
  case ofMethod => exact { hx with methods := hedit hx.methods hw }
  case ofCall => exact { hx with calls := hedit hx.calls hw }

/-- **A database that keeps ids of 64 bits** has no other ids, whatever was done to it. -/
theorem narrowIds_run {ops : List (Refusal × Operation)} (hops : ∀ op ∈ ops, op.1.KeepsWidth) :
    NarrowIds (run .empty ops) :=
  run_keepsWidth (P := NarrowIds) (fun hw hx => narrowIds_perform hx hw) narrowIds_empty hops
    narrowIds_empty

variable {x : Index} {id : RowId} {refs : List MethodRef}

/-! ## Values of an index -/

/-- The rows of a table are counted by the last id. -/
theorem length_holds {α : Type} {id : α → RowId} {rows : List α}
    (hids : rows.map id = firstIds rows.length) (h : ∀ r ∈ rows, Width.signed64.holds (id r) = true) :
    Width.signed64.holds rows.length = true := by
  cases hn : rows.length with
  | zero => decide
  | succ n =>
    have hlast : (n : RowId) + 1 ∈ rows.map id := by
      rw [hids, hn, firstIds_succ]
      exact List.mem_append_right _ List.mem_cons_self
    obtain ⟨r, hr, hid⟩ := List.mem_map.1 hlast
    have hholds := h r hr
    rw [hid] at hholds
    exact hholds

/-- Listed neighbours are stored methods. -/
theorem Lists.holds (hids : NarrowIds x) {P : RowId → Prop} (h : Lists x P refs) :
    ∀ r ∈ refs, Width.signed64.holds r.methodId = true := by
  intro r hr
  obtain ⟨m, hm, -, hrefers⟩ := (h.mem_iff r).1 hr
  exact hrefers.methodId ▸ hids.methods m hm

theorem narrow_refs (h : ∀ r ∈ refs, Width.signed64.holds r.methodId = true) :
    (encode refs).Narrow :=
  narrow_list.2 fun r hr => Value.narrow_object.2 (by simpa [encode] using h r hr)

theorem narrow_edges (h : ∀ r ∈ refs, Width.signed64.holds r.methodId = true) :
    (encode (refs.map MethodRef.edgeRef)).Narrow :=
  narrow_list.2 (List.forall_mem_map.2 fun r hr =>
    Value.narrow_object.2 (by simpa [encode, MethodRef.edgeRef] using h r hr))

/-- A row of the whole graph has the ids of stored rows. -/
theorem Describes.narrow (hx : WellFormed x) (hids : NarrowIds x) {m : Method} (hm : m ∈ x.methods)
    {row : GraphRow} (h : Describes x m row) : (encode row).Narrow := by
  obtain ⟨c, d, p, home, hc, -, hd, -, hp, -⟩ := h.home
  obtain ⟨out, hout, hcallees, -⟩ := h.callees
  obtain ⟨into, hinto, hcallers, -⟩ := h.callers
  have hmethod : Width.signed64.holds row.methodId = true := h.methodId ▸ hids.methods m hm
  have hclass : Width.signed64.holds row.classId = true := hc ▸ hids.classes c home.storedClass
  have hdocument : Width.signed64.holds row.documentId = true :=
    hd ▸ hids.documents d home.storedDocument
  have hproject : Width.signed64.holds row.projectId = true :=
    hp ▸ hids.projects p home.storedProject
  have hedges : (encode row.callees).Narrow ∧ (encode row.callers).Narrow :=
    ⟨hcallees ▸ narrow_edges ((callees_lists hx hout).holds hids),
      hcallers ▸ narrow_edges ((callers_lists hx hinto).holds hids)⟩
  refine Value.narrow_object.2 ?_
  simp only [List.forall_mem_cons]
  exact ⟨.whole hproject, .string _, .whole hdocument, .string _, .whole hclass, .string _,
    .whole hmethod, .string _, .string _, .string _, hedges.1, hedges.2, fun _ hm => nomatch hm⟩

/-! ### Rows -/

theorem narrow_projects (hids : NarrowIds x) : ∀ p ∈ x.projects, (encode p).Narrow :=
  fun p hp => Value.narrow_object.2 (by simpa [encode] using hids.projects p hp)

/-- What a row refers to is a row. -/
theorem narrow_documents (hx : WellFormed x) (hids : NarrowIds x) :
    ∀ d ∈ x.documents, (encode d).Narrow := by
  intro d hd
  obtain ⟨p, hp, hproject⟩ := List.mem_map.1 (hx.documentProject d hd)
  refine Value.narrow_object.2 ?_
  simpa [encode] using And.intro (hids.documents d hd) (hproject ▸ hids.projects p hp)

theorem narrow_classes (hx : WellFormed x) (hids : NarrowIds x) :
    ∀ c ∈ x.classes, (encode c).Narrow := by
  intro c hc
  obtain ⟨d, hd, hdocument⟩ := List.mem_map.1 (hx.classDocument c hc)
  refine Value.narrow_object.2 ?_
  simpa [encode] using And.intro (hids.classes c hc) (hdocument ▸ hids.documents d hd)

theorem narrow_methods (hx : WellFormed x) (hids : NarrowIds x) :
    ∀ m ∈ x.methods, (encode m).Narrow := by
  intro m hm
  obtain ⟨c, hc, hclass⟩ := List.mem_map.1 (hx.methodClass m hm)
  refine Value.narrow_object.2 ?_
  simp only [List.forall_mem_cons]
  exact ⟨.whole (hids.methods m hm), .whole (hclass ▸ hids.classes c hc), .string _, .string _,
    .string _, (forms_line m.startLine).narrow, (forms_line m.endLine).narrow, fun _ hm => nomatch hm⟩

theorem narrow_calls (hx : WellFormed x) (hids : NarrowIds x) :
    ∀ c ∈ x.calls, (encode c).Narrow := by
  intro c hc
  obtain ⟨hfrom, hto⟩ := hx.callEnds c hc
  obtain ⟨caller, hcaller, hcallerId⟩ := List.mem_map.1 hfrom
  obtain ⟨callee, hcallee, hcalleeId⟩ := List.mem_map.1 hto
  refine Value.narrow_object.2 ?_
  simp only [List.forall_mem_cons]
  exact ⟨.whole (hids.calls c hc), .whole (hcallerId ▸ hids.methods caller hcaller),
    .whole (hcalleeId ▸ hids.methods callee hcallee), fun _ hm => nomatch hm⟩

end Index

/-! ## Replies -/

namespace Cli

/-- An answer is a value in JSON, or else both are the same error. -/
inductive Answers {α : Type} [Encode α] : Except Error α → Except Error Answer → Prop where
  | ok (a : α) (text : String) : Answers (.ok a) (.ok (.of a text))
  | error (e : Error) : Answers (.error e) (.error e)

theorem Answers.of_bind {α : Type} [Encode α] (first : Except Error α) (text : α → String) :
    Answers first (first >>= fun a => .ok (.of a (text a))) := by
  cases first with
  | ok a => exact .ok a (text a)
  | error e => exact .error e

/-- The value is wrapped before it is written. -/
theorem Answers.of_map {α β : Type} [Encode β] (first : Except Error α) (wrap : α → β)
    (text : α → String) :
    Answers (first.map wrap) (first >>= fun a => .ok (.of (wrap a) (text a))) := by
  cases first with
  | ok a => exact .ok (wrap a) (text a)
  | error e => exact .error e

namespace Query

/-- The value that the library replies to a query with. -/
def Reply : Query → Type
  | callees _ => UsedMethods
  | callers _ => RelatedMethods
  | graph => GraphData
  | method _ _ => MethodSource
  | detail _ => MethodDetail
  | context _ _ => UsageContext
  | related _ _ => RelatedContext
  | prompt _ _ _ => Prompt
  | list .projects => List Project
  | list .documents => List Document
  | list .classes => List Class
  | list .methods => List Method
  | list .methodCalls => List MethodCall
  | stats => IndexStats

instance : (q : Query) → Encode q.Reply
  | callees _ => inferInstanceAs (Encode UsedMethods)
  | callers _ => inferInstanceAs (Encode RelatedMethods)
  | graph => inferInstanceAs (Encode GraphData)
  | method _ _ => inferInstanceAs (Encode MethodSource)
  | detail _ => inferInstanceAs (Encode MethodDetail)
  | context _ _ => inferInstanceAs (Encode UsageContext)
  | related _ _ => inferInstanceAs (Encode RelatedContext)
  | prompt _ _ _ => inferInstanceAs (Encode Prompt)
  | list .projects => inferInstanceAs (Encode (List Project))
  | list .documents => inferInstanceAs (Encode (List Document))
  | list .classes => inferInstanceAs (Encode (List Class))
  | list .methods => inferInstanceAs (Encode (List Method))
  | list .methodCalls => inferInstanceAs (Encode (List MethodCall))
  | stats => inferInstanceAs (Encode IndexStats)

/-- What the library replies to a query over an index. -/
def reply (x : Index) : (q : Query) → Except Error q.Reply
  | callees id => (x.callees id).map UsedMethods.mk
  | callers id => (x.callers id).map RelatedMethods.mk
  | graph => x.fullGraph.map GraphData.mk
  | method signature document => x.methodInDocument signature document
  | detail id => x.methodDetail id
  | context signature document => x.callGraph.usage signature document
  | related signature document => x.callGraph.related signature document
  | prompt kind signature document => x.callGraph.prompt kind signature document
  | list .projects => .ok x.projects
  | list .documents => .ok x.documents
  | list .classes => .ok x.classes
  | list .methods => .ok x.methods
  | list .methodCalls => .ok x.calls
  | stats => .ok x.stats

/-- **An answer is the reply in JSON**, and a query fails just as the library does. -/
theorem answer_reply (path : String) (size : Option Nat) (x : Index) (q : Query) :
    Answers (q.reply x) (q.answer path size x) := by
  cases q with
  | callees id => exact .of_map (x.callees id) UsedMethods.mk _
  | callers id => exact .of_map (x.callers id) RelatedMethods.mk _
  | graph => exact .of_map x.fullGraph GraphData.mk _
  | method signature document => exact .of_bind (x.methodInDocument signature document) _
  | detail id => exact .of_bind (x.methodDetail id) _
  | context signature document => exact .of_bind (x.callGraph.usage signature document) _
  | related signature document => exact .of_bind (x.callGraph.related signature document) _
  | prompt kind signature document => exact .of_bind (x.callGraph.prompt kind signature document) _
  | list t =>
    cases t with
    | projects => exact .ok x.projects _
    | documents => exact .ok x.documents _
    | classes => exact .ok x.classes _
    | methods => exact .ok x.methods _
    | methodCalls => exact .ok x.calls _
  | stats => exact .ok x.stats _

end Query

end Cli

/-! ## Records that are only written -/

section Records

variable {d : Nat}

/-- A context is told by its three parts. -/
theorem UsageContext.legible {c : UsageContext} (hmethod : Legible d c.method)
    (hused : Legible d c.usedMethods) : Legible (d + 1) c := by
  refine .object (fun _ => rfl) ?_ ?_
  · simp [hmethod.narrow, hused.narrow, hmethod.shallow, hused.shallow, Value.depth]
  · rintro ⟨method, usedMethods, auxiliary⟩ h
    simp only [List.cons.injEq, Prod.mk.injEq, true_and, and_true] at h
    obtain ⟨hm, hu, ha⟩ := h
    cases hmethod.unique _ hm
    cases hused.unique _ hu
    cases ha
    rfl

theorem RelatedUsage.legible {u : RelatedUsage} (hid : Width.signed64.holds u.methodId = true) :
    Legible (d + 1) u := by
  refine .object (fun _ => rfl) ?_ ?_
  · simp [encode, hid, Value.depth]
  · rintro ⟨methodId, methodBody, documentPath⟩ h
    simp only [List.cons.injEq, Prod.mk.injEq, true_and, and_true] at h
    obtain ⟨hm, hb, hp⟩ := h
    cases (Legible.id (d := d) hid).unique _ hm
    cases hb
    cases hp
    rfl

theorem RelatedContext.legible {c : RelatedContext} (hmethod : Legible d c.method)
    (hrelated : Legible d c.related) : Legible (d + 1) c := by
  refine .object (fun _ => rfl) ?_ ?_
  · simp [hmethod.narrow, hrelated.narrow, hmethod.shallow, hrelated.shallow]
  · rintro ⟨method, related⟩ h
    simp only [List.cons.injEq, Prod.mk.injEq, true_and, and_true] at h
    obtain ⟨hm, hr⟩ := h
    cases hmethod.unique _ hm
    cases hrelated.unique _ hr
    rfl

theorem Prompt.legible (p : Prompt) : Legible (d + 1) p := by
  refine .object (fun _ => rfl) ?_ ?_
  · simp [Value.depth]
  · rintro ⟨system, user⟩ h
    simp only [List.cons.injEq, Prod.mk.injEq, true_and, and_true] at h
    obtain ⟨hs, hu⟩ := h
    cases hs
    cases hu
    rfl

/-- The counts of an index have 64 bits, as its ids do. -/
theorem IndexStats.legible {x : Index} (hx : x.WellFormed) (hids : x.NarrowIds) :
    Legible (d + 1) x.stats := by
  have hprojects : Legible d x.stats.projects :=
    .count (Index.length_holds hx.projects.ids hids.projects)
  have hdocuments : Legible d x.stats.documents :=
    .count (Index.length_holds hx.documents.ids hids.documents)
  have hclasses : Legible d x.stats.classes :=
    .count (Index.length_holds hx.classes.ids hids.classes)
  have hmethods : Legible d x.stats.methods :=
    .count (Index.length_holds hx.methods.ids hids.methods)
  have hcalls : Legible d x.stats.methodCalls :=
    .count (Index.length_holds hx.callIds hids.calls)
  refine .object (fun _ => rfl) ?_ ?_
  · simp [hprojects.narrow, hdocuments.narrow, hclasses.narrow, hmethods.narrow, hcalls.narrow,
      hprojects.shallow, hdocuments.shallow, hclasses.shallow, hmethods.shallow, hcalls.shallow]
  · rintro ⟨projects, documents, classes, methods, methodCalls⟩ h
    simp only [List.cons.injEq, Prod.mk.injEq, true_and, and_true] at h
    obtain ⟨hp, hd, hc, hm, he⟩ := h
    cases hprojects.unique _ hp
    cases hdocuments.unique _ hd
    cases hclasses.unique _ hc
    cases hmethods.unique _ hm
    cases hcalls.unique _ he
    rfl

end Records

/-! ## Replies are legible -/

namespace Index

variable {x : Index} {d : Nat}

theorem methodInDocument_legible (hids : NarrowIds x) {signature document : String}
    {source : MethodSource} (h : x.methodInDocument signature document = .ok source) :
    Legible (d + 1) source := by
  obtain ⟨m, hm, -, rfl⟩ := methodInDocument_ok h
  refine Lawful.legible (Nat.le_add_left 1 d) (Value.narrow_object.2 ?_)
  simpa [encode] using hids.methods m hm

theorem methodDetail_legible (hids : NarrowIds x) {id : RowId} {a : MethodDetail}
    (h : x.methodDetail id = .ok a) : Legible (d + 1) a := by
  unfold methodDetail at h
  split at h
  · rename_i m hm
    cases h
    refine Lawful.legible (Nat.le_add_left 1 d) (Value.narrow_object.2 ?_)
    simpa [encode] using hids.methods m (List.mem_of_find?_eq_some hm)
  · cases h

theorem usage_legible (hx : WellFormed x) (hids : NarrowIds x) {signature document : String}
    {c : UsageContext} (h : x.callGraph.usage signature document = .ok c) :
    Legible (d + 3) c := by
  obtain ⟨source, hsource, -⟩ := ok_of_bind h
  obtain ⟨u, hu, hcomplete⟩ := usage_complete hx hsource
  rw [hu] at h
  cases h
  have hrefs := narrow_refs ((callees_lists hx hcomplete.usedMethods).holds hids)
  refine UsageContext.legible ?_ (.list fun r hr => ?_)
  · rw [hcomplete.method]
    exact methodInDocument_legible hids hsource
  · exact Lawful.legible (Nat.le_add_left 1 d) (narrow_list.1 hrefs r hr)

theorem related_legible (hx : WellFormed x) (hids : NarrowIds x) {signature document : String}
    {c : RelatedContext} (h : x.callGraph.related signature document = .ok c) :
    Legible (d + 3) c := by
  obtain ⟨source, hsource, -⟩ := ok_of_bind h
  obtain ⟨u, hu, hcomplete⟩ := related_complete hx hsource
  rw [hu] at h
  cases h
  obtain ⟨refs, hrefs, htells, -⟩ := hcomplete.callers
  refine RelatedContext.legible ?_ (.list fun u hu => ?_)
  · rw [hcomplete.method]
    exact methodInDocument_legible hids hsource
  · obtain ⟨r, hr, hid, -⟩ := exists_of_mem_right htells hu
    exact RelatedUsage.legible (hid ▸ (callers_lists hx hrefs).holds hids r hr)

theorem narrow_fullGraph (hx : WellFormed x) (hids : NarrowIds x) {rows : List GraphRow}
    (h : x.fullGraph = .ok rows) : (encode rows).Narrow := by
  obtain ⟨rows', hrows, hall⟩ := exists_fullGraph hx hids.methods
  rw [hrows] at h
  cases h
  refine narrow_list.2 fun row hrow => ?_
  obtain ⟨m, hm, hdescribes⟩ := exists_of_mem_right hall hrow
  exact hdescribes.narrow hx hids hm

end Index

namespace Cli.Query

open Index

variable {x : Index}

/-- **Every reply over an index is legible**, whatever texts are stored in it. -/
theorem reply_legible (hx : WellFormed x) (hids : NarrowIds x) {q : Query} {a : q.Reply}
    (h : q.reply x = .ok a) : Legible maxDepth a := by
  cases q with
  | callees id =>
    obtain ⟨refs, hrefs, rfl⟩ := ok_of_map UsedMethods.mk h
    have hnarrow := narrow_refs ((callees_lists hx hrefs).holds hids)
    exact Lawful.legible (α := UsedMethods) (by decide)
      (Value.narrow_object.2 (by simpa using hnarrow))
  | callers id =>
    obtain ⟨refs, hrefs, rfl⟩ := ok_of_map RelatedMethods.mk h
    have hnarrow := narrow_refs ((callers_lists hx hrefs).holds hids)
    exact Lawful.legible (α := RelatedMethods) (by decide)
      (Value.narrow_object.2 (by simpa using hnarrow))
  | graph =>
    obtain ⟨rows, hrows, rfl⟩ := ok_of_map GraphData.mk h
    have hnarrow := narrow_fullGraph hx hids hrows
    exact Lawful.legible (α := GraphData) (by decide)
      (Value.narrow_object.2 (by simpa using hnarrow))
  | method signature document => exact methodInDocument_legible hids h
  | detail id => exact methodDetail_legible hids h
  | context signature document => exact usage_legible hx hids h
  | related signature document => exact related_legible hx hids h
  | prompt kind signature document => exact Prompt.legible a
  | list t =>
    cases t <;> cases h
    · exact Lawful.legible_list (by decide) (narrow_projects hids)
    · exact Lawful.legible_list (by decide) (narrow_documents hx hids)
    · exact Lawful.legible_list (by decide) (narrow_classes hx hids)
    · exact Lawful.legible_list (by decide) (narrow_methods hx hids)
    · exact Lawful.legible_list (by decide) (narrow_calls hx hids)
  | stats =>
    cases h
    exact IndexStats.legible hx hids

end Cli.Query

end CallIndex
