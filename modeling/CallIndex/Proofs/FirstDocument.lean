import CallIndex.Proofs.Accounting
import CallIndex.Proofs.CompleteContext

/-!
# Where a new method is found

A method stands in the document of its class, and a class stays in the document that it was first seen
in. So a new method need not be found in the document of the batch that brings it: its class may be
spread over several files.

* `skipped_of_place`: a new input whose signature has no place is reported as skipped.
* `Index.classPath`: the document in which a class of a batch was first seen.
* `Written.inserted`: an input that is neither stored before nor skipped is a new method, and stands in
  the document of its class.
* `Index.inserted_found`: **a new method is found in the document in which its class was first seen**,
  and in no other one.
-/

namespace CallIndex

/-- **A new input without a place is reported as skipped**, whatever the inputs before it add. -/
theorem skipped_of_place {find : String → Option RowId} {rows : List Method}
    {ms : List MethodInput} {i : MethodInput} {s : Skipped} (hi : i ∈ ms)
    (hnew : i.signature ∉ signatures rows) (hplace : place find i.signature = .error s) :
    s ∈ (effects find rows ms).filterMap Index.MethodEffect.skipped? := by
  induction ms generalizing rows with
  | nil => cases hi
  | cons m ms ih =>
    rw [effects, List.mem_filterMap]
    rcases List.mem_cons.1 hi with rfl | hi
    · refine ⟨.skipped s, List.mem_cons.2 (Or.inl ?_), rfl⟩
      unfold effectOf
      rw [if_neg hnew, hplace]
    · -- what the first input adds has a place, so it is not this one
      have hstill : i.signature ∉ signatures (putMethod find rows m) := by
        rcases putMethod_cases find rows m with ⟨-, hp, -⟩ | ⟨-, _, -, hp, -⟩ | ⟨-, _, _, hok, hp, -⟩ <;>
          rw [hp]
        · rwa [signatures_map_rewrite]
        · exact hnew
        · intro hin
          rw [signatures, List.map_append] at hin
          rcases List.mem_append.1 hin with hin | hin
          · exact hnew hin
          · have he : i.signature = m.signature := List.mem_singleton.1 hin
            rw [he, hok] at hplace
            cases hplace
      obtain ⟨effect, heffect, hs⟩ := List.mem_filterMap.1 (ih hi hstill)
      exact ⟨effect, List.mem_cons_of_mem _ heffect, hs⟩

namespace Index

variable {refuse : Refusal} {x y : Index} {b : Batch} {r : Report} {c : Class} {d : Document}
  {i : MethodInput} {name : String}

/-- The path of the document in which a class of a batch was first seen: that of the stored class, or
else that of the batch itself. -/
def classPath (x : Index) (b : Batch) (name : String) : String :=
  match (x.classByName? name).bind fun c => x.documentById? c.documentId with
  | some d => d.path
  | none => b.document

/-- A stored class keeps its document. -/
theorem classPath_of_mem (hx : WellFormed x) (hc : c ∈ x.classes) (hd : d ∈ x.documents)
    (hid : d.id = c.documentId) (b : Batch) : x.classPath b c.name = d.path := by
  have hclass : x.classByName? c.name = some c := hx.classes.find?_key hc
  have hdocument : x.documentById? c.documentId = some d := hid ▸ hx.documents.find?_id hd
  unfold classPath
  rw [hclass, Option.bind_some, hdocument]

/-- A new class goes into the document of its batch. -/
theorem classPath_of_not_mem (hname : name ∉ x.classes.map Class.name) (b : Batch) :
    x.classPath b name = b.document := by
  have hnone : x.classByName? name = none := by
    refine List.find?_eq_none.2 fun c hc => ?_
    simpa using fun he : c.name = name => hname (he ▸ List.mem_map_of_mem hc)
  unfold classPath
  rw [hnone]
  rfl

namespace Written

/-- **A class stands in the document in which it was first seen.** -/
theorem exists_classDocument (h : Written x b y r) (hx : WellFormed x) (hc : c ∈ y.classes) :
    ∃ d ∈ y.documents, d.id = c.documentId ∧ d.path = x.classPath b c.name := by
  rw [h.classes] at hc
  rcases Keying.mem_intern hc with hold | ⟨-, hnew, id, hrow⟩
  · obtain ⟨d, hd, hid⟩ := List.mem_map.1 (hx.classDocument c hold)
    exact ⟨d, h.isPrefix_documents.subset hd, hid, (classPath_of_mem hx hold hd hid b).symm⟩
  · obtain ⟨d, hd, hpath, hid⟩ := h.document
    have hdocument : c.documentId = r.documentId := congrArg Class.documentId hrow
    exact ⟨d, hd, hid.trans hdocument.symm, hpath.trans (classPath_of_not_mem hnew b).symm⟩

/-- **An input that is neither stored before nor skipped is a new method.** It has the text of the last
input of its signature and stands in the document in which its class was first seen. -/
theorem inserted (h : Written x b y r) (hx : WellFormed x) (hy : WellFormed y) (hi : i ∈ b.methods)
    (hnew : i.signature ∉ signatures x.methods)
    (hkept : SkippedItem.method i.signature ∉ r.skipped.map Skipped.item) :
    ∃ m ∈ y.methods, m.signature = i.signature ∧
      (∃ last, lastWith i.signature b.methods = some last ∧ m.body = last.body) ∧
      ∃ parts, splitSignature i.signature = some parts ∧
        StandsAt y m (x.classPath b parts.owner) := by
  -- the input has a place, or else the report would name it
  have hplace : (place (y.listedClass? b.classes) i.signature).isOk = true := by
    cases hp : place (y.listedClass? b.classes) i.signature with
    | ok at_ => rfl
    | error s =>
      have hs := skipped_of_place hi hnew hp
      refine absurd ?_ hkept
      rw [← item_unplaced? ((h.place_error_iff hx _ _).1 hp), h.skipped]
      exact List.mem_map_of_mem (List.mem_append_left _ hs)
  have hin : i.signature ∈ b.methods.map MethodInput.signature := List.mem_map_of_mem hi
  have hstored : i.signature ∈ signatures y.methods := by
    rw [h.methods, mem_signatures_putMethods hx.methods.distinct]
    exact Or.inr ⟨hin, hplace⟩
  obtain ⟨m, hm, hsignature⟩ := List.mem_map.1 hstored
  refine ⟨m, hm, hsignature, ?_, ?_⟩
  · obtain ⟨last, hlast⟩ := exists_lastWith hin
    have hrevise : m.revise b.methods = m := (mem_putMethods (h.methods ▸ hm)).2
    rw [revise_eq_last, hsignature, hlast] at hrevise
    exact ⟨last, hlast, congrArg Method.body hrevise.symm⟩
  · rcases h.mem_methods hm with ⟨s, hs, rfl⟩ | ⟨c, hc, hclass, hsplit⟩
    · rw [(Method.revise_links b.methods s).2.2.2] at hsignature
      exact absurd (hsignature ▸ List.mem_map_of_mem hs) hnew
    · obtain ⟨d, hd, hid, hpath⟩ := h.exists_classDocument hx hc
      obtain ⟨c', d', p, home⟩ := exists_home hy hm
      have hcc : c' = c := hy.classes.eq_of_id home.storedClass hc (home.classId.trans hclass.symm)
      subst hcc
      have hdd : d' = d := hy.documents.eq_of_id home.storedDocument hd (home.documentId.trans hid.symm)
      subst hdd
      exact ⟨_, hsignature ▸ hsplit, hpath ▸ home.standsAt⟩

end Written

/-- **A new method is found in the document in which its class was first seen.** Let a batch be written,
whatever else the database refuses, and let one of its methods be neither stored before nor reported as
skipped. Then the method is found by its signature and the path of the document of its class: that of
the stored class if there was one, and else that of the batch. The answer has the text of the last
input of the signature, the contexts of the method are assembled under this path, and with any other
path, that of the batch as well, the method is not found. -/
theorem inserted_found (hx : Reachable x) (h : x.ingest refuse b = (y, .ok r)) (hi : i ∈ b.methods)
    (hnew : i.signature ∉ signatures x.methods)
    (hkept : SkippedItem.method i.signature ∉ r.skipped.map Skipped.item) :
    ∃ parts last source, splitSignature i.signature = some parts ∧
      lastWith i.signature b.methods = some last ∧
      source.method = i.signature ++ "\n" ++ last.body ∧
      y.methodInDocument i.signature (x.classPath b parts.owner) = .ok source ∧
      (∃ u, y.callGraph.usage i.signature (x.classPath b parts.owner) = .ok u ∧
        u.method = source) ∧
      (∃ c, y.callGraph.related i.signature (x.classPath b parts.owner) = .ok c ∧
        c.method = source) ∧
      ∀ path, (∃ found, y.methodInDocument i.signature path = .ok found) ↔
        path = x.classPath b parts.owner := by
  have hwx := hx.wellFormed
  obtain ⟨hb, hw⟩ := written_of_ingest hwx h
  have hwy := hw.wellFormed hwx hb
  obtain ⟨m, hm, hsignature, ⟨last, hlast, hbody⟩, parts, hsplit, hat⟩ :=
    hw.inserted hwx hwy hi hnew hkept
  have hfound : y.methodInDocument i.signature (x.classPath b parts.owner) = .ok ⟨m.text, m.id⟩ :=
    (methodInDocument_eq_ok_iff hwy).2 ⟨m, hm, hsignature, hat, rfl⟩
  obtain ⟨u, hu, husage⟩ := usage_complete hwy hfound
  obtain ⟨c, hc, hrelated⟩ := related_complete hwy hfound
  refine ⟨parts, last, ⟨m.text, m.id⟩, hsplit, hlast, ?_, hfound, ⟨u, hu, husage.method⟩,
    ⟨c, hc, hrelated.method⟩, fun path => ⟨?_, ?_⟩⟩
  · rw [← hsignature, ← hbody]
    rfl
  · rintro ⟨found, hpath⟩
    obtain ⟨k, hk, hks, hkat, -⟩ := (methodInDocument_eq_ok_iff hwy).1 hpath
    rw [hwy.methods.eq_of_key hk hm (hks.trans hsignature.symm)] at hkat
    exact hkat.unique hwy hat
  · rintro rfl
    exact ⟨_, hfound⟩

/-- A batch adds a method to a class of another document, and one to a class of its own. -/
theorem inserted_found_split_class :
    let first : Batch := ⟨"P", "a.cs", ["P.Partial"], [], []⟩
    let b : Batch := ⟨"P", "b.cs", ["P.Partial", "P.Own"],
      [⟨"P.Partial.Second()", "draft", none, none⟩, ⟨"int P.Own.Get(a.b c)", "return 1;", none, none⟩,
        ⟨"P.Partial.Second()", "return 2;", some 3, none⟩], []⟩
    let x := (Index.empty.ingest .never first).1
    let y := (x.ingest .never b).1
    x.ingest .never b = (y, .ok ⟨1, 2, 2, 2, 1, 0, []⟩) ∧
      (∀ path, (∃ found, y.methodInDocument "P.Partial.Second()" path = .ok found) ↔
        path = "a.cs") ∧
      (∃ u, y.callGraph.usage "P.Partial.Second()" "a.cs" = .ok u ∧
        u.method = ⟨"P.Partial.Second()\nreturn 2;", 1⟩) ∧
      ∃ c, y.callGraph.related "int P.Own.Get(a.b c)" "b.cs" = .ok c ∧
        c.method = ⟨"int P.Own.Get(a.b c)\nreturn 1;", 2⟩ := by
  intro first b x y
  have hx : Reachable x := Reachable.empty.apply .never (.ingest first)
  have h : x.ingest .never b = (y, .ok ⟨1, 2, 2, 2, 1, 0, []⟩) := by decide +kernel
  obtain ⟨parts, last, source, hsplit, -, -, hfound, ⟨u, hu, husource⟩, -, honly⟩ :=
    inserted_found hx h (i := ⟨"P.Partial.Second()", "draft", none, none⟩) List.mem_cons_self
      (by decide +kernel) (by decide)
  obtain ⟨parts', last', source', hsplit', -, -, hfound', -, ⟨c, hc, hcsource⟩, -⟩ :=
    inserted_found hx h (i := ⟨"int P.Own.Get(a.b c)", "return 1;", none, none⟩)
      (List.mem_cons_of_mem _ List.mem_cons_self) (by decide +kernel) (by decide)
  have hpartial : splitSignature "P.Partial.Second()" = some ⟨"P.Partial", "Second()"⟩ := by
    decide +kernel
  have hown : splitSignature "int P.Own.Get(a.b c)" = some ⟨"P.Own", "Get(a.b c)"⟩ := by
    decide +kernel
  obtain rfl := Option.some.inj (hsplit.symm.trans hpartial)
  obtain rfl := Option.some.inj (hsplit'.symm.trans hown)
  have hfirst : x.classPath b "P.Partial" = "a.cs" := by decide +kernel
  have hsecond : x.classPath b "P.Own" = "b.cs" := by decide +kernel
  rw [hfirst] at hfound hu honly
  rw [hsecond] at hfound' hc
  have hsource : y.methodInDocument "P.Partial.Second()" "a.cs" =
      .ok ⟨"P.Partial.Second()\nreturn 2;", 1⟩ := by decide +kernel
  have hsource' : y.methodInDocument "int P.Own.Get(a.b c)" "b.cs" =
      .ok ⟨"int P.Own.Get(a.b c)\nreturn 1;", 2⟩ := by decide +kernel
  obtain rfl := Except.ok.inj (hfound.symm.trans hsource)
  obtain rfl := Except.ok.inj (hfound'.symm.trans hsource')
  exact ⟨h, honly, ⟨u, hu, husource⟩, c, hc, hcsource⟩

/-- A new method of a class that was first seen in another document is not found in the document of the
batch that brings it, nor are its contexts. -/
theorem split_class_not_found :
    let first : Batch := ⟨"P", "a.cs", ["P.Partial"], [], []⟩
    let b : Batch := ⟨"P", "b.cs", ["P.Partial"],
      [⟨"P.Partial.Second()", "return 2;", none, none⟩], []⟩
    let x := (Index.empty.ingest .never first).1
    let y := (x.ingest .never b).1
    let unknown : Error := .notFound "method P.Partial.Second() in document b.cs"
    Reachable x ∧ "P.Partial.Second()" ∉ signatures x.methods ∧
      x.ingest .never b = (y, .ok ⟨1, 2, 1, 1, 0, 0, []⟩) ∧
      y.methodInDocument "P.Partial.Second()" b.document = .error unknown ∧
      y.callGraph.usage "P.Partial.Second()" b.document = .error unknown ∧
      y.callGraph.related "P.Partial.Second()" b.document = .error unknown := by
  intro first b x y unknown
  exact ⟨Reachable.empty.apply .never (.ingest first), by decide +kernel⟩

end Index

end CallIndex
