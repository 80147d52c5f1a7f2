import CallIndex.Proofs.Growth

/-!
# Methods stand in the class of their signature

The row of a method says twice which class owns it: by the id of a class row, and by its signature.
The two never disagree. The class is looked up once, when the method is added, by the name that the
signature gives; what comes later changes neither row.

* `Index.Placed`: the class row of a method is the one that its signature names.
* `Written.placed`: a batch places the methods that it adds and leaves the others in their places.
* `Index.methods_placed`: **every stored method is placed, and stays in its place** until the index is
  cleared.
-/

namespace CallIndex.Index

variable {x y : Index} {b : Batch} {r : Report} {m : Method} {c : Class}

/-- A method stands in a class: the one that it refers to, and the one that its signature names. -/
structure Placed (x : Index) (m : Method) (c : Class) : Prop where
  stored : c ∈ x.classes
  classId : c.id = m.classId
  split : splitSignature m.signature = some ⟨c.name, m.name⟩

namespace Placed

/-- The place of a method does not hang on its text. -/
theorem revise (h : Placed x m c) (ms : List MethodInput) : Placed x (m.revise ms) c := by
  obtain ⟨-, hclass, hname, hsig⟩ := Method.revise_links ms m
  refine ⟨h.stored, ?_, ?_⟩
  · rw [hclass]; exact h.classId
  · rw [hsig, hname]; exact h.split

/-- Nor does it hang on classes that are added later. -/
theorem grow (h : Placed x m c) (hxy : x.classes <+: y.classes) : Placed y m c :=
  ⟨hxy.subset h.stored, h.classId, h.split⟩

theorem classById? (h : Placed x m c) (hx : WellFormed x) : x.classById? m.classId = some c :=
  h.classId ▸ hx.classes.find?_id h.stored

end Placed

/-- Every method of an index is placed. -/
def AllPlaced (x : Index) : Prop := ∀ m ∈ x.methods, ∃ c, Placed x m c

/-- **A written batch places its methods.** A new one goes into a class of the batch, whether the batch
added the row of that class or found it. -/
theorem Written.placed (h : Written x b y r) (hx : AllPlaced x) : AllPlaced y := by
  intro m hm
  rcases h.mem_methods hm with ⟨s, hs, rfl⟩ | ⟨c, hc, hid, hsplit⟩
  · obtain ⟨c, hplaced⟩ := hx s hs
    exact ⟨c, (hplaced.grow h.isPrefix_classes).revise b.methods⟩
  · exact ⟨c, hc, hid, hsplit⟩

theorem Reachable.allPlaced (hx : Reachable x) : AllPlaced x := by
  -- the step needs the tables to be well formed as well
  suffices h : WellFormed x ∧ AllPlaced x from h.2
  induction hx with
  | empty => exact ⟨empty_wellFormed, fun _ hm => nomatch hm⟩
  | apply _ refuse op ih =>
    exact apply_induct ⟨empty_wellFormed, fun _ hm => nomatch hm⟩ (ingest_induct Written.placed) ih op

/-- **Methods agree with their signatures.** In every index, whatever led to it, the class that a
method refers to has the name that its signature gives, and the method the name that follows. After
any operations without a clear the method is there with the same id, class, name and signature, and
its class is the same row, in the same document, whoever gave the method other texts or used the class
again. -/
theorem methods_placed (hx : Reachable x) (hm : m ∈ x.methods) :
    ∃ c, x.classById? m.classId = some c ∧ splitSignature m.signature = some ⟨c.name, m.name⟩ ∧
      ∀ ops : List (Refusal × Operation), (∀ op ∈ ops, op.2 ≠ .clear) →
        ∃ k, (x.run ops).methodById? m.id = some k ∧ k.bare = m.bare ∧
          (x.run ops).classById? k.classId = some c := by
  obtain ⟨c, hplaced⟩ := hx.allPlaced m hm
  refine ⟨c, hplaced.classById? hx.wellFormed, hplaced.split, ?_⟩
  intro ops hops
  have hkeeps := hx.keeps_run hops
  obtain ⟨k, hk, hbare⟩ := hkeeps.method m hm
  refine ⟨k, hk, hbare, ?_⟩
  obtain ⟨-, hclass, -, -⟩ := Method.bare_eq_iff.1 hbare
  rw [hclass, ← hplaced.classId]
  exact hkeeps.ofClass c hplaced.stored

/-- A batch of another document adds a generic method to a class that it found. A third batch gives it
another text. -/
theorem methods_placed_found_class :
    let bs : List Batch :=
      [⟨"demo", "A.java", ["P.A"], [⟨"void P.A.f()", "", none, none⟩], []⟩,
      ⟨"demo", "B.java", ["P.B", "P.A"],
        [⟨"Map<K, V> P.A.g<T>(a.b c)", "one", none, none⟩, ⟨"int P.B.h()", "", none, none⟩], []⟩]
    let m : Method := ⟨2, 1, "g<T>(a.b c)", "Map<K, V> P.A.g<T>(a.b c)", "one", none, none⟩
    let x := run .empty [(.never, .ingestAll bs)]
    let y := x.run [(.never, .ingest ⟨"demo", "C.java", ["P.A"],
      [⟨"Map<K, V> P.A.g<T>(a.b c)", "two", some 1, none⟩], []⟩)]
    m ∈ x.methods ∧ x.classById? m.classId = some ⟨1, 1, "P.A"⟩ ∧
      splitSignature m.signature = some ⟨"P.A", m.name⟩ ∧
      ∃ k, y.methodById? 2 = some k ∧ k.body = "two" ∧ k.bare = m.bare ∧
        y.classById? k.classId = some ⟨1, 1, "P.A"⟩ := by
  intro bs m x y
  have hm : m ∈ x.methods := by decide +kernel
  obtain ⟨c, hc, hsplit, hlater⟩ :=
    methods_placed (Reachable.empty.run [(.never, .ingestAll bs)]) hm
  have hclass : x.classById? m.classId = some ⟨1, 1, "P.A"⟩ := by decide +kernel
  obtain rfl : c = ⟨1, 1, "P.A"⟩ := Option.some.inj (hc.symm.trans hclass)
  obtain ⟨k, hk, hbare, hkc⟩ := hlater [(.never, .ingest ⟨"demo", "C.java", ["P.A"],
    [⟨"Map<K, V> P.A.g<T>(a.b c)", "two", some 1, none⟩], []⟩)] (by simp)
  have hbody : (y.methodById? 2).map Method.body = some "two" := by decide +kernel
  have hk' : y.methodById? 2 = some k := hk
  rw [hk'] at hbody
  exact ⟨hm, hclass, hsplit, k, hk', Option.some.inj hbody, hbare, hkc⟩

end CallIndex.Index
