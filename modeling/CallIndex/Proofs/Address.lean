import CallIndex.Proofs.Neighbours

/-!
# A method has one address

A method is looked up by its signature and the path of a document. Only one pair finds it: its own
signature and the path of the document that its class belongs to.

* `methodInDocument_cases`: what a look-up by signature and path can answer.
* `Index.StandsAt`: a method stands in the document with this path. Each stored method stands in one
  document only (`StandsAt.unique`).
* `methodInDocument_eq_ok_iff`: a look-up finds just the method that stands there.
* `Index.addresses_exact`: **every stored method has one address**, and every pair of texts that is not
  an address is refused.
-/

namespace CallIndex

/-- The source text of a stored method. -/
def Method.text (m : Method) : String := methodText m.signature m.body

namespace Index

variable {x : Index} {m : Method} {signature path : String} {source : MethodSource}

/-! ## What a look-up can answer -/

/-- **What a look-up can answer**: a blank signature is refused first and a blank path then; after that
a method that stands in the document is found, or there is none. -/
theorem methodInDocument_cases (x : Index) (signature path : String) :
    (isBlank signature = true ∧
        x.methodInDocument signature path = .error (.required .signature)) ∨
      (isBlank signature = false ∧ isBlank path = true ∧
        x.methodInDocument signature path = .error (.required .document)) ∨
      (isBlank signature = false ∧ isBlank path = false ∧
        ((∃ m ∈ x.methods, x.standsIn signature path m = true ∧
            x.methodInDocument signature path = .ok ⟨m.text, m.id⟩) ∨
          ((∀ m ∈ x.methods, x.standsIn signature path m = false) ∧
            x.methodInDocument signature path =
              .error (notInDocument signature path)))) := by
  unfold methodInDocument require
  cases hsignature : isBlank signature with
  | true => exact Or.inl ⟨rfl, rfl⟩
  | false =>
    cases hpath : isBlank path with
    | true => exact Or.inr (Or.inl ⟨rfl, rfl, rfl⟩)
    | false =>
      refine Or.inr (Or.inr ⟨rfl, rfl, ?_⟩)
      simp only [bind, Except.bind, Bool.false_eq_true, if_false]
      cases hfind : x.methods.find? (x.standsIn signature path) with
      | some m =>
        exact Or.inl ⟨m, List.mem_of_find?_eq_some hfind, List.find?_some hfind, rfl⟩
      | none =>
        refine Or.inr ⟨fun m hm => ?_, rfl⟩
        simpa using List.find?_eq_none.1 hfind m hm

theorem methodInDocument_ok (h : x.methodInDocument signature path = .ok source) :
    ∃ m ∈ x.methods, m.signature = signature ∧ source = ⟨m.text, m.id⟩ := by
  rcases methodInDocument_cases x signature path with
    ⟨-, he⟩ | ⟨-, -, he⟩ | ⟨-, -, ⟨m, hm, hstands, he⟩ | ⟨-, he⟩⟩ <;> rw [he] at h <;> cases h
  unfold standsIn at hstands
  rw [Bool.and_eq_true, decide_eq_true_eq] at hstands
  exact ⟨m, hm, hstands.1, rfl⟩

/-! ## Where a method stands -/

/-- A method stands in the document with this path: the document of its class. -/
def StandsAt (x : Index) (m : Method) (path : String) : Prop :=
  ∃ c d p, Home x m c d p ∧ d.path = path

theorem Home.standsAt {c : Class} {d : Document} {p : Project} (h : Home x m c d p) :
    StandsAt x m d.path :=
  ⟨c, d, p, h, rfl⟩

theorem StandsAt.documentOf? (h : StandsAt x m path) (hx : WellFormed x) :
    ∃ d, x.documentOf? m = some d ∧ d.path = path := by
  obtain ⟨c, d, p, home, hpath⟩ := h
  exact ⟨d, home.documentOf? hx, hpath⟩

/-- **A method stands in one document.** -/
theorem StandsAt.unique {path' : String} (hx : WellFormed x) (h : StandsAt x m path)
    (h' : StandsAt x m path') : path = path' := by
  obtain ⟨d, hd, hpath⟩ := h.documentOf? hx
  obtain ⟨d', hd', hpath'⟩ := h'.documentOf? hx
  have hsame : d = d' := Option.some.inj (hd.symm.trans hd')
  rw [← hpath, ← hpath', hsame]

theorem StandsAt.isBlank (h : StandsAt x m path) (hx : WellFormed x) : isBlank path = false := by
  obtain ⟨c, d, p, home, rfl⟩ := h
  exact hx.documents.shown d home.storedDocument

/-- The test of the look-up, for a stored method. -/
theorem standsIn_iff (hx : WellFormed x) (hm : m ∈ x.methods) :
    x.standsIn signature path m = true ↔ m.signature = signature ∧ StandsAt x m path := by
  obtain ⟨c, d, p, home⟩ := exists_home hx hm
  unfold standsIn
  rw [Bool.and_eq_true, decide_eq_true_eq, home.documentOf? hx, Option.any_some, decide_eq_true_eq]
  constructor
  · rintro ⟨hsignature, rfl⟩
    exact ⟨hsignature, home.standsAt⟩
  · rintro ⟨hsignature, hstands⟩
    exact ⟨hsignature, home.standsAt.unique hx hstands⟩

/-- **A look-up finds the method that stands there**, and nothing else. -/
theorem methodInDocument_eq_ok_iff (hx : WellFormed x) :
    x.methodInDocument signature path = .ok source ↔
      ∃ m ∈ x.methods, m.signature = signature ∧ StandsAt x m path ∧ source = ⟨m.text, m.id⟩ := by
  constructor
  · intro h
    rcases methodInDocument_cases x signature path with
      ⟨-, he⟩ | ⟨-, -, he⟩ | ⟨-, -, ⟨m, hm, hstands, he⟩ | ⟨-, he⟩⟩ <;> rw [he] at h <;> cases h
    obtain ⟨hsignature, hat⟩ := (standsIn_iff hx hm).1 hstands
    exact ⟨m, hm, hsignature, hat, rfl⟩
  · rintro ⟨m, hm, hsignature, hat, rfl⟩
    have hstands := (standsIn_iff hx hm).2 ⟨hsignature, hat⟩
    have hshown : isBlank signature = false := hsignature ▸ hx.methods.shown m hm
    rcases methodInDocument_cases x signature path with
      ⟨hblank, -⟩ | ⟨-, hblank, -⟩ | ⟨-, -, ⟨k, hk, hk', he⟩ | ⟨hnone, -⟩⟩
    · rw [hshown] at hblank
      cases hblank
    · rw [hat.isBlank hx] at hblank
      cases hblank
    · -- the method that is found has the same signature, so it is this one
      have hsame : k.signature = m.signature := ((standsIn_iff hx hk).1 hk').1.trans hsignature.symm
      rw [he, hx.methods.eq_of_key hk hm hsame]
    · rw [hnone m hm] at hstands
      cases hstands

/-- **Every stored method has one address**: its signature and the path of the document of its class.
There the look-up answers with the id of the method and with its signature, a line feed and its body,
as the look-up by id tells it; with its signature and any other path it fails. What is found at all is
such a method. A blank signature or a blank path is a malformed request, and any other pair of texts
that is no address is not found. -/
theorem addresses_exact (hx : Reachable x) :
    (∀ m ∈ x.methods, ∃ c d p detail, Home x m c d p ∧ x.methodDetail m.id = .ok detail ∧
      x.methodInDocument m.signature d.path =
        .ok ⟨m.signature ++ "\n" ++ detail.methodBody, m.id⟩ ∧
      ∀ path, (∃ source, x.methodInDocument m.signature path = .ok source) ↔ path = d.path) ∧
    (∀ signature path source, x.methodInDocument signature path = .ok source →
      ∃ m ∈ x.methods, m.signature = signature ∧ StandsAt x m path ∧
        source = ⟨m.signature ++ "\n" ++ m.body, m.id⟩) ∧
    ∀ signature path,
      (isBlank signature = true →
        x.methodInDocument signature path = .error (.validation "signature is required")) ∧
      (isBlank signature = false → isBlank path = true →
        x.methodInDocument signature path = .error (.validation "document is required")) ∧
      (isBlank signature = false → isBlank path = false →
        (¬ ∃ m ∈ x.methods, m.signature = signature ∧ StandsAt x m path) →
        x.methodInDocument signature path =
          .error (.notFound ("method " ++ signature ++ " in document " ++ path))) := by
  have hwx := hx.wellFormed
  refine ⟨?_, ?_, ?_⟩
  · intro m hm
    obtain ⟨c, d, p, home⟩ := exists_home hwx hm
    have hdetail : x.methodDetail m.id = .ok ⟨m.id, m.signature, m.body⟩ := by
      unfold methodDetail
      rw [methodById?_of_mem hwx hm]
    refine ⟨c, d, p, _, home, hdetail, ?_, ?_⟩
    · exact (methodInDocument_eq_ok_iff hwx).2 ⟨m, hm, rfl, home.standsAt, rfl⟩
    · intro path
      constructor
      · rintro ⟨source, h⟩
        obtain ⟨k, hk, hsignature, hat, -⟩ := (methodInDocument_eq_ok_iff hwx).1 h
        rw [hwx.methods.eq_of_key hk hm hsignature] at hat
        exact hat.unique hwx home.standsAt
      · rintro rfl
        exact ⟨_, (methodInDocument_eq_ok_iff hwx).2 ⟨m, hm, rfl, home.standsAt, rfl⟩⟩
  · intro signature path source h
    obtain ⟨m, hm, hsignature, hat, rfl⟩ := (methodInDocument_eq_ok_iff hwx).1 h
    exact ⟨m, hm, hsignature, hat, rfl⟩
  · intro signature path
    rcases methodInDocument_cases x signature path with
      ⟨hs, he⟩ | ⟨hs, hp, he⟩ | ⟨hs, hp, ⟨m, hm, hstands, -⟩ | ⟨-, he⟩⟩
    · exact ⟨fun _ => he, by simp [hs], by simp [hs]⟩
    · exact ⟨by simp [hs], fun _ _ => he, by simp [hp]⟩
    · refine ⟨by simp [hs], by simp [hp], fun _ _ hnone => ?_⟩
      obtain ⟨hsignature, hat⟩ := (standsIn_iff hwx hm).1 hstands
      exact absurd ⟨m, hm, hsignature, hat⟩ hnone
    · exact ⟨by simp [hs], by simp [hp], fun _ _ _ => he⟩

/-- A class that is first seen in one document and then listed by another one, which another project
claims as well. The method that the second document adds has its address in the first. -/
theorem addresses_exact_shared_class :
    let bs : List Batch :=
      [⟨"demo", "A.java", ["A"], [⟨"void A.f()", "one", none, none⟩], []⟩,
      ⟨"demo", "B.java", ["A", "B"],
        [⟨"void A.g()", "two", none, none⟩, ⟨"void B.h()", "three", none, none⟩], []⟩,
      ⟨"other", "B.java", ["A"], [⟨"void A.g()", "four", none, none⟩], []⟩]
    let x := run .empty [(.never, .ingestAll bs)]
    x.methodInDocument "void A.g()" "A.java" = .ok ⟨"void A.g()\nfour", 2⟩ ∧
      (∀ path, (∃ source, x.methodInDocument "void A.g()" path = .ok source) ↔ path = "A.java") ∧
      x.methodInDocument "void A.g()" "B.java" =
        .error (.notFound "method void A.g() in document B.java") ∧
      x.methodInDocument "void B.h()" "\t " = .error (.validation "document is required") := by
  intro bs x
  let m : Method := ⟨2, 1, "g()", "void A.g()", "four", none, none⟩
  have hx : Reachable x := Reachable.empty.run _
  have hm : m ∈ x.methods := by decide +kernel
  obtain ⟨hstored, -, hrefused⟩ := addresses_exact hx
  obtain ⟨c, d, p, detail, home, hdetail, hfound, honly⟩ := hstored m hm
  have hdocument : x.documentOf? m = some ⟨1, 1, "A.java"⟩ := by decide +kernel
  have hd : d = ⟨1, 1, "A.java"⟩ :=
    Option.some.inj ((home.documentOf? hx.wellFormed).symm.trans hdocument)
  have hbody : x.methodDetail m.id = .ok ⟨2, "void A.g()", "four"⟩ := by decide +kernel
  obtain rfl := Except.ok.inj (hdetail.symm.trans hbody)
  subst hd
  refine ⟨hfound, honly, ?_, (hrefused _ _).2.1 (by decide) (by decide)⟩
  refine (hrefused _ _).2.2 (by decide) (by decide) ?_
  rintro ⟨k, hk, hsignature, hat⟩
  rw [hx.wellFormed.methods.eq_of_key hk hm hsignature] at hat
  have hpath := hat.unique hx.wellFormed home.standsAt
  exact absurd hpath (by decide)

end Index

end CallIndex
