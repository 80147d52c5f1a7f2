import CallIndex.Proofs.Invariant

/-!
# What a history of batches leaves

An index that batches were ingested into, one after the other from the empty one, holds what the list
of batches says. No step of an ingest is left in the description.

* `Batch.owns`: the batch lists the class of a signature. Only then it can add the method.
* `Index.Records`: the rows of an index, read off a history. Links go to the first batch that names a
  row, and the text of a method is that of the last input of its signature, whatever batch that input
  stands in.
* `Records.written`: one more batch makes one more entry of the history.
* `Index.ingested_records`: after any history the index is the one described.
-/

namespace CallIndex

namespace Batch

/-- The batch lists the class that a signature names. -/
def owns (b : Batch) (signature : String) : Bool :=
  match splitSignature signature with
  | some parts => parts.owner ∈ b.classes
  | none => false

/-- The signatures of a batch that can be added to their classes. -/
def ownSignatures (b : Batch) : List String := (b.methods.map MethodInput.signature).filter b.owns

end Batch

/-- The first entry of a history stays the first one. -/
theorem find?_concat_of_some {α : Type} {p : α → Bool} {l : List α} {a b : α}
    (h : l.find? p = some a) : (l ++ [b]).find? p = some a := by
  rw [List.find?_append, h]
  rfl

/-- A new entry is the first one if there was none. -/
theorem find?_concat_of_none {α : Type} {p : α → Bool} {l : List α} {b : α}
    (h : ∀ a ∈ l, p a = false) (hb : p b = true) : (l ++ [b]).find? p = some b := by
  have hnone : l.find? p = none := by
    rw [List.find?_eq_none]
    intro a ha
    simp [h a ha]
  rw [List.find?_append, hnone, Option.none_or, List.find?_cons_of_pos hb]

namespace Index

/-- Batches ingested in order into the empty index, each with success. -/
inductive Ingested : List Batch → Index → Prop where
  | nil : Ingested [] .empty
  | snoc {history : List Batch} {x y : Index} {b : Batch} {r : Report} {refuse : Refusal}
      (hx : Ingested history x) (h : x.ingest refuse b = (y, .ok r)) :
      Ingested (history ++ [b]) y

/-- **What a history of batches leaves.** Rows stand in the order in which their keys first occur. -/
structure Records (history : List Batch) (x : Index) : Prop where
  projects : x.projects.map Project.name = (history.map Batch.project).eraseDups
  documents : x.documents.map Document.path = (history.map Batch.document).eraseDups
  classes : x.classes.map Class.name = (history.flatMap Batch.classes).eraseDups
  methods : x.methods.map Method.signature = (history.flatMap Batch.ownSignatures).eraseDups
  documentLink : ∀ d ∈ x.documents, ∃ b, history.find? (fun b => b.document = d.path) = some b ∧
    ∃ p ∈ x.projects, p.name = b.project ∧ p.id = d.projectId
  classLink : ∀ c ∈ x.classes, ∃ b, history.find? (fun b => c.name ∈ b.classes) = some b ∧
    ∃ d ∈ x.documents, d.path = b.document ∧ d.id = c.documentId
  methodLink : ∀ m ∈ x.methods, ∃ parts, splitSignature m.signature = some parts ∧
    m.name = parts.name ∧ ∃ c ∈ x.classes, c.name = parts.owner ∧ c.id = m.classId
  methodText : ∀ m ∈ x.methods, ∃ i, lastWith m.signature (history.flatMap Batch.methods) = some i ∧
    m.body = i.body ∧ m.startLine = i.startLine ∧ m.endLine = i.endLine

variable {history : List Batch} {x y : Index} {b : Batch} {r : Report}

/-- A method of a batch has a place just when the batch lists its class. -/
theorem Written.isOk_place (h : Written x b y r) (hx : WellFormed x) (signature : String) :
    (place (y.listedClass? b.classes) signature).isOk = b.owns signature := by
  unfold place Batch.owns
  cases splitSignature signature with
  | none => rfl
  | some parts =>
    dsimp only
    unfold listedClass?
    by_cases hc : parts.owner ∈ b.classes
    · -- a listed class is there after the class step
      cases hfind : y.classByName? parts.owner with
      | none => exact absurd (h.class_mem hx _ hc) (find?_key_none hfind)
      | some c => simp [hc, Except.isOk, Except.toBool]
    · simp [hc, Except.isOk, Except.toBool]

namespace Records

theorem empty : Records [] .empty :=
  ⟨rfl, rfl, rfl, rfl, by simp [Index.empty], by simp [Index.empty], by simp [Index.empty],
    by simp [Index.empty]⟩

/-- A path that is not stored occurs in no batch. -/
theorem document_ne (h : Records history x) {path : String}
    (hnew : path ∉ x.documents.map Document.path) : ∀ a ∈ history, a.document ≠ path := by
  intro a ha he
  rw [h.documents, List.mem_eraseDups] at hnew
  exact hnew (he ▸ List.mem_map_of_mem ha)

/-- A class that is not stored is listed by no batch. -/
theorem class_not_mem (h : Records history x) {name : String}
    (hnew : name ∉ x.classes.map Class.name) : ∀ a ∈ history, name ∉ a.classes := by
  intro a ha hc
  rw [h.classes, List.mem_eraseDups] at hnew
  exact hnew (List.mem_flatMap.2 ⟨a, ha, hc⟩)

theorem keys_written (h : Records history x) (hx : WellFormed x) (hw : Written x b y r) :
    y.projects.map Project.name = ((history ++ [b]).map Batch.project).eraseDups ∧
    y.documents.map Document.path = ((history ++ [b]).map Batch.document).eraseDups ∧
    y.classes.map Class.name = ((history ++ [b]).flatMap Batch.classes).eraseDups ∧
    y.methods.map Method.signature = ((history ++ [b]).flatMap Batch.ownSignatures).eraseDups := by
  refine ⟨?_, ?_, ?_, ?_⟩
  · have hkeys : y.projects.map Project.name = _ :=
      hw.projects ▸ Keying.keys_intern (K := projectKeying) hx.projects.distinct [b.project]
    have hold : x.projects.map projectKeying.key = _ := h.projects
    rw [hkeys, hold, eraseDups_append_left, List.map_append, List.map_singleton]
  · have hkeys : y.documents.map Document.path = _ :=
      hw.documents ▸
        Keying.keys_intern (K := documentKeying r.projectId) hx.documents.distinct [b.document]
    have hold : x.documents.map (documentKeying r.projectId).key = _ := h.documents
    rw [hkeys, hold, eraseDups_append_left, List.map_append, List.map_singleton]
  · rw [hw.names_classes hx, h.classes, eraseDups_append_left, List.flatMap_append,
      List.flatMap_singleton]
  · have hplace : (fun s => (place (y.listedClass? b.classes) s).isOk) = b.owns :=
      funext (hw.isOk_place hx)
    have hkeys : signatures (putMethods (y.listedClass? b.classes) x.methods b.methods) = _ :=
      signatures_putMethods hx.methods.distinct b.methods
    rw [← hw.methods, hplace] at hkeys
    have hold : signatures x.methods = _ := h.methods
    rw [hold, eraseDups_append_left] at hkeys
    rw [List.flatMap_append, List.flatMap_singleton]
    exact hkeys

/-- **The first batch that names a document decides its project**, and the first one that lists a
class its document. -/
theorem links_written (h : Records history x) (hw : Written x b y r) :
    (∀ d ∈ y.documents, ∃ b', (history ++ [b]).find? (fun b => b.document = d.path) = some b' ∧
      ∃ p ∈ y.projects, p.name = b'.project ∧ p.id = d.projectId) ∧
    (∀ c ∈ y.classes, ∃ b', (history ++ [b]).find? (fun b => c.name ∈ b.classes) = some b' ∧
      ∃ d ∈ y.documents, d.path = b'.document ∧ d.id = c.documentId) := by
  constructor
  · intro d hd
    rw [hw.documents] at hd
    rcases Keying.mem_intern hd with hd | ⟨hkey, hnew, i, hrow⟩
    · -- the first batch of an old document is still the first one
      obtain ⟨b', hfind, p, hp, hname, hid⟩ := h.documentLink d hd
      exact ⟨b', find?_concat_of_some hfind, p, hw.isPrefix_projects.subset hp, hname, hid⟩
    · -- no batch before this one named a new document
      have hpath : d.path = b.document := List.mem_singleton.1 hkey
      have hbefore := h.document_ne hnew
      obtain ⟨p, hp, hname, hid⟩ := hw.project
      refine ⟨b, find?_concat_of_none ?_ ?_, p, hp, hname, ?_⟩
      · intro a ha
        exact decide_eq_false (hbefore a ha)
      · exact decide_eq_true hpath.symm
      · rw [hid, hrow]; rfl
  · intro c hc
    rw [hw.classes] at hc
    rcases Keying.mem_intern hc with hc | ⟨hkey, hnew, i, hrow⟩
    · obtain ⟨b', hfind, d, hd, hpath, hid⟩ := h.classLink c hc
      exact ⟨b', find?_concat_of_some hfind, d, hw.isPrefix_documents.subset hd, hpath, hid⟩
    · have hbefore := h.class_not_mem hnew
      obtain ⟨d, hd, hpath, hid⟩ := hw.document
      refine ⟨b, find?_concat_of_none ?_ ?_, d, hd, hpath, ?_⟩
      · intro a ha
        exact decide_eq_false (hbefore a ha)
      · exact decide_eq_true hkey
      · rw [hid, hrow]; rfl

/-- A method goes into the class that its signature names, and stays there. -/
theorem methodLink_written (h : Records history x) (hw : Written x b y r) :
    ∀ m ∈ y.methods, ∃ parts, splitSignature m.signature = some parts ∧
      m.name = parts.name ∧ ∃ c ∈ y.classes, c.name = parts.owner ∧ c.id = m.classId := by
  intro m hm
  rcases hw.mem_methods hm with ⟨s, hs, rfl⟩ | ⟨c, hc, hid, hsplit⟩
  · obtain ⟨-, hclass, hname, hsig⟩ := Method.revise_links b.methods s
    rw [hsig, hname, hclass]
    obtain ⟨parts, hsplit, hn, c, hc, hcn, hci⟩ := h.methodLink s hs
    exact ⟨parts, hsplit, hn, c, hw.isPrefix_classes.subset hc, hcn, hci⟩
  · exact ⟨_, hsplit, rfl, c, hc, rfl, hid⟩

/-- **The last input of a signature decides the text**, wherever it stands. -/
theorem methodText_written (h : Records history x) (hw : Written x b y r) :
    ∀ m ∈ y.methods,
      ∃ i, lastWith m.signature ((history ++ [b]).flatMap Batch.methods) = some i ∧
        m.body = i.body ∧ m.startLine = i.startLine ∧ m.endLine = i.endLine := by
  intro m hm
  rw [hw.methods] at hm
  obtain ⟨hrow, hrevise⟩ := mem_putMethods hm
  rw [List.flatMap_append, List.flatMap_singleton, lastWith_append]
  rw [revise_eq_last] at hrevise
  cases hlast : lastWith m.signature b.methods with
  | some i =>
    rw [hlast] at hrevise
    refine ⟨i, rfl, ?_⟩
    rw [← hrevise]
    exact ⟨rfl, rfl, rfl⟩
  | none =>
    rw [Option.none_or]
    -- the batch says nothing of this method, so it was there before
    rcases hrow with ⟨s, hs, rfl⟩ | ⟨hin, -⟩
    · obtain ⟨-, -, -, hsig⟩ := Method.revise_links b.methods s
      rw [hsig] at hlast ⊢
      have hsame : s.revise b.methods = s := by rw [revise_eq_last, hlast]
      rw [hsame]
      exact h.methodText s hs
    · obtain ⟨i, hi⟩ := exists_lastWith hin
      rw [hlast] at hi
      cases hi

/-- **One more batch is one more entry of the history.** -/
theorem written (h : Records history x) (hx : WellFormed x) (hw : Written x b y r) :
    Records (history ++ [b]) y := by
  obtain ⟨hprojects, hdocuments, hclasses, hmethods⟩ := h.keys_written hx hw
  obtain ⟨hdocument, hclass⟩ := h.links_written hw
  exact ⟨hprojects, hdocuments, hclasses, hmethods, hdocument, hclass, h.methodLink_written hw,
    h.methodText_written hw⟩

end Records

/-- A history leads to a well-formed index that it describes. -/
theorem Ingested.wellFormed_records (h : Ingested history x) :
    WellFormed x ∧ Records history x := by
  induction h with
  | nil => exact ⟨empty_wellFormed, Records.empty⟩
  | snoc hx h ih =>
    obtain ⟨hb, hw⟩ := written_of_ingest ih.1 h
    exact ⟨hw.wellFormed ih.1 hb, ih.2.written ih.1 hw⟩

/-- A list of batches that is written as a whole goes on with the history. -/
theorem Ingested.ingestEach {refuse : Refusal} {bs : List Batch} {reports : List Report}
    (hx : Ingested history x) (h : ingestEach refuse x bs = (y, .ok reports)) :
    Ingested (history ++ bs) y := by
  induction bs generalizing history x reports with
  | nil => cases h; simpa using hx
  | cons b bs ih =>
    obtain ⟨x', r, rest, hr, hrest, rfl⟩ := ingestEach_cons_ok h
    have hstep := ih (hx.snoc hr) hrest
    rwa [List.append_assoc] at hstep

/-- **The index says what the history says.** Ingest any batches in order into the empty index, each
with success and whatever else the database refuses. Then the index records them, and the ids of each
table number its rows from 1. -/
theorem ingested_records (h : Ingested history x) :
    Records history x ∧
      x.projects.map Project.id = firstIds x.projects.length ∧
      x.documents.map Document.id = firstIds x.documents.length ∧
      x.classes.map Class.id = firstIds x.classes.length ∧
      x.methods.map Method.id = firstIds x.methods.length ∧
      x.calls.map MethodCall.id = firstIds x.calls.length := by
  obtain ⟨hx, hrecords⟩ := h.wellFormed_records
  exact ⟨hrecords, hx.projects.ids, hx.documents.ids, hx.classes.ids, hx.methods.ids, hx.callIds⟩

/-- A document and a class that a later batch claims for another parent, a method that is skipped and
then added, and a text that a batch for another document replaces. -/
theorem ingested_records_disputed :
    let history : List Batch :=
      [⟨"demo", "A.java", ["A"],
        [⟨"void A.f()", "one", some 1, some 3⟩, ⟨"void B.g()", "early", none, none⟩], []⟩,
      ⟨"other", "A.java", ["B", "A"],
        [⟨"void B.g()", "late", some 7, some 8⟩, ⟨"void A.f()", "two", some 4, some 5⟩],
        [⟨"void B.g()", "void A.f"⟩]⟩,
      ⟨"other", "C.java", ["A", "C"], [⟨"void A.f()", "three", none, some 6⟩], []⟩]
    let x : Index :=
      ⟨[⟨1, "demo"⟩, ⟨2, "other"⟩], [⟨1, 1, "A.java"⟩, ⟨2, 2, "C.java"⟩],
        [⟨1, 1, "A"⟩, ⟨2, 1, "B"⟩, ⟨3, 2, "C"⟩],
        [⟨1, 1, "f()", "void A.f()", "three", none, some 6⟩,
          ⟨2, 2, "g()", "void B.g()", "late", some 7, some 8⟩],
        [⟨1, 2, 1⟩]⟩
    Ingested history x ∧ Records history x ∧ x.calls.map MethodCall.id = firstIds 1 := by
  intro history x
  have hwrite : Index.ingestEach .never .empty history =
      (x, .ok [⟨1, 1, 1, 1, 0, 0, [.classNotListed "void B.g()" "B"]⟩, ⟨2, 1, 2, 1, 1, 1, []⟩,
        ⟨2, 2, 2, 0, 1, 0, []⟩]) := by decide +kernel
  have h : Ingested history x := Ingested.nil.ingestEach hwrite
  have hx := ingested_records h
  exact ⟨h, hx.1, hx.2.2.2.2.2⟩

end Index

end CallIndex
