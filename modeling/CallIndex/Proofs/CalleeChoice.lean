import CallIndex.Proofs.Resolution

/-!
# The choice of a callee, said without the look-up

Which method a callee names can be said in terms of the stored signatures alone. A signature starts with
a callee when the characters of the callee are its first ones: no character stands for others, cases
differ, and characters that look alike are not the same.

* `Index.StartsWith`: a stored signature starts with a callee.
* `isCandidate_iff_startsWith`: the count of characters sees just this, unless there is a null
  character in the callee.
* `Index.ranking`: all candidates in order, the exact one before all others and then by ids.
* `resolveCallee_eq_head?`: the first of them is found.
* `Index.callee_defined`: **which method is found, and when none is**.
-/

namespace CallIndex.Index

variable {x : Index} {m k : Method} {callee : String}

/-- The signature of a method starts with a callee, character by character. -/
def StartsWith (callee : String) (m : Method) : Prop := callee.toList <+: m.signature.toList

theorem isCandidate_iff_startsWith :
    isCandidate callee m = true ↔ '\x00' ∉ callee.toList ∧ StartsWith callee m :=
  isCandidate_iff

/-- A signature starts with itself. -/
theorem startsWith_of_eq (h : m.signature = callee) : StartsWith callee m := by
  unfold StartsWith
  rw [h]

/-! ## The candidates in order -/

/-- The order of two candidates: one with exactly the text of the callee comes first, and two that agree
in this are in the order of their ids. -/
def precedes (callee : String) (m k : Method) : Bool :=
  if (m.signature = callee ↔ k.signature = callee) then m.id ≤ k.id else m.signature = callee

/-- All candidates of a callee, in order. -/
def ranking (x : Index) (callee : String) : List Method :=
  (x.methods.filter (isCandidate callee)).mergeSort (precedes callee)

theorem precedes_trans (callee : String) (m k n : Method) (hmk : precedes callee m k = true)
    (hkn : precedes callee k n = true) : precedes callee m n = true := by
  unfold precedes at *
  -- ids are only compared between methods that agree in being the exact one
  by_cases hm : m.signature = callee <;> by_cases hk : k.signature = callee <;>
    by_cases hn : n.signature = callee <;> simp [hm, hk, hn] at *
  · exact Int.le_trans hmk hkn
  · exact Int.le_trans hmk hkn

theorem precedes_total (callee : String) (m k : Method) :
    (precedes callee m k || precedes callee k m) = true := by
  unfold precedes
  by_cases hm : m.signature = callee <;> by_cases hk : k.signature = callee <;> simp [hm, hk]
  · exact Int.le_total _ _
  · exact Int.le_total _ _

/-- The first of the ranking is named by the callee. -/
theorem names_of_head? (h : (x.ranking callee).head? = some m) : Names x callee m := by
  have hmem : ∀ n, n ∈ x.ranking callee ↔ n ∈ x.methods ∧ isCandidate callee n = true := by
    intro n
    rw [ranking, List.mem_mergeSort, List.mem_filter]
  obtain ⟨hm, hcandidate⟩ := (hmem m).1 (List.mem_of_mem_head? h)
  -- nothing comes before the first one
  have hfirst : ∀ n ∈ x.methods, isCandidate callee n = true → n = m ∨ precedes callee m n = true := by
    intro n hn hnc
    have hsorted : (x.ranking callee).Pairwise fun a b => precedes callee a b = true :=
      List.pairwise_mergeSort (precedes_trans callee) (precedes_total callee) _
    have hin := (hmem n).2 ⟨hn, hnc⟩
    obtain ⟨rest, hrest⟩ := List.head?_eq_some_iff.1 h
    rw [hrest] at hsorted hin
    rcases List.mem_cons.1 hin with he | hlater
    · exact Or.inl he
    · exact Or.inr ((List.pairwise_cons.1 hsorted).1 n hlater)
  refine ⟨hm, hcandidate, ?_⟩
  by_cases hexact : m.signature = callee
  · exact Or.inl hexact
  · right
    have hinexact : callee ∉ signatures x.methods := by
      intro hin
      obtain ⟨n, hn, hnexact⟩ := List.mem_map.1 hin
      -- a method with exactly this text is a candidate, and would come first
      have hnc : isCandidate callee n = true :=
        isCandidate_iff_startsWith.2
          ⟨(isCandidate_iff_startsWith.1 hcandidate).1, startsWith_of_eq hnexact⟩
      rcases hfirst n hn hnc with rfl | hbefore
      · exact hexact hnexact
      · simp [precedes, hexact, hnexact] at hbefore
    refine ⟨hinexact, fun n hn hnc => ?_⟩
    have hninexact : n.signature ≠ callee := fun he => hinexact (he ▸ List.mem_map_of_mem hn)
    rcases hfirst n hn hnc with rfl | hbefore
    · exact Int.le_refl _
    · simpa [precedes, hexact, hninexact] using hbefore

/-- **The first of the ranking is found**, and nothing else is looked at. -/
theorem resolveCallee_eq_head? (hx : WellFormed x) :
    x.resolveCallee callee = (x.ranking callee).head? := by
  cases h : (x.ranking callee).head? with
  | some m => exact (resolveCallee_eq_some_iff hx).2 (names_of_head? h)
  | none =>
    rw [resolveCallee_eq_none_iff]
    intro n hn
    have hempty : x.ranking callee = [] := List.head?_eq_none_iff.1 h
    by_contra hnc
    have hin : n ∈ x.ranking callee := by
      rw [ranking, List.mem_mergeSort, List.mem_filter]
      exact ⟨hn, by simpa using hnc⟩
    rw [hempty] at hin
    cases hin

/-! ## The definition -/

/-- **The method that a callee names.** None is found just when there is a null character in the callee
or no stored signature starts with it. Otherwise it is the method with exactly the text of the callee,
if one is stored, and else the one with the least id among those whose signatures start with the
callee. This is the first of all candidates when the exact one is put before the others, and those are
put in the order of their ids. -/
theorem callee_defined (hx : Reachable x) (callee : String) :
    (x.resolveCallee callee = none ↔
      '\x00' ∈ callee.toList ∨ ∀ m ∈ x.methods, ¬ StartsWith callee m) ∧
    (∀ m, x.resolveCallee callee = some m ↔
      '\x00' ∉ callee.toList ∧ m ∈ x.methods ∧ StartsWith callee m ∧
        (m.signature = callee ∨
          callee ∉ signatures x.methods ∧ ∀ k ∈ x.methods, StartsWith callee k → m.id ≤ k.id)) ∧
    x.resolveCallee callee = (x.ranking callee).head? := by
  refine ⟨?_, fun m => ?_, resolveCallee_eq_head? hx.wellFormed⟩
  · rw [resolveCallee_eq_none_iff]
    simp only [← Bool.not_eq_true, isCandidate_iff_startsWith]
    by_cases hnull : '\x00' ∈ callee.toList
    · simp [hnull]
    · simp [hnull]
  · rw [resolveCallee_eq_some_iff hx.wellFormed]
    constructor
    · rintro ⟨hm, hcandidate, hchosen⟩
      obtain ⟨hnull, hstarts⟩ := isCandidate_iff_startsWith.1 hcandidate
      refine ⟨hnull, hm, hstarts, hchosen.imp_right ?_⟩
      rintro ⟨hinexact, hleast⟩
      exact ⟨hinexact, fun k hk hks => hleast k hk (isCandidate_iff_startsWith.2 ⟨hnull, hks⟩)⟩
    · rintro ⟨hnull, hm, hstarts, hchosen⟩
      refine ⟨hm, isCandidate_iff_startsWith.2 ⟨hnull, hstarts⟩, hchosen.imp_right ?_⟩
      rintro ⟨hinexact, hleast⟩
      exact ⟨hinexact, fun k hk hkc => hleast k hk (isCandidate_iff_startsWith.1 hkc).2⟩

/-- Signatures of characters of one to four bytes, wildcards, another case and a null character behind
the front. -/
theorem callee_defined_characters :
    let b : Batch := ⟨"demo", "A.java", ["A"],
      [⟨"void A.axé😀(int)", "", none, none⟩, ⟨"void A.a%é😀\x00()", "", none, none⟩,
        ⟨"void A.a%é😀(int)", "", none, none⟩, ⟨"void A.A%é😀", "", none, none⟩,
        ⟨"void A.a%é", "", none, none⟩], []⟩
    let x := (Index.empty.ingest .never b).1
    (∃ m, x.resolveCallee "void A.a%é😀" = some m ∧ m.id = 2) ∧
      (∃ m, x.resolveCallee "void A.a%é" = some m ∧ m.id = 5) ∧
      x.resolveCallee "void A.a_é" = none ∧ x.resolveCallee "void A.ae\u0301" = none ∧
      x.resolveCallee "void A.a%é😀\x00" = none := by
  intro b x
  have hx : Reachable x := Reachable.empty.apply .never (.ingest b)
  have hmethods : x.methods =
      [⟨1, 1, "axé😀(int)", "void A.axé😀(int)", "", none, none⟩,
        ⟨2, 1, "a%é😀\x00()", "void A.a%é😀\x00()", "", none, none⟩,
        ⟨3, 1, "a%é😀(int)", "void A.a%é😀(int)", "", none, none⟩,
        ⟨4, 1, "A%é😀", "void A.A%é😀", "", none, none⟩,
        ⟨5, 1, "a%é", "void A.a%é", "", none, none⟩] := by decide +kernel
  refine ⟨⟨⟨2, 1, "a%é😀\x00()", "void A.a%é😀\x00()", "", none, none⟩, ?_, rfl⟩,
    ⟨⟨5, 1, "a%é", "void A.a%é", "", none, none⟩, ?_, rfl⟩, ?_, ?_, ?_⟩
  · refine ((callee_defined hx "void A.a%é😀").2.1 _).2 ?_
    rw [hmethods]
    unfold StartsWith
    decide +kernel
  · refine ((callee_defined hx "void A.a%é").2.1 _).2 ?_
    rw [hmethods]
    unfold StartsWith
    decide +kernel
  · refine (callee_defined hx "void A.a_é").1.2 (Or.inr ?_)
    rw [hmethods]
    unfold StartsWith
    decide +kernel
  · refine (callee_defined hx "void A.ae\u0301").1.2 (Or.inr ?_)
    rw [hmethods]
    unfold StartsWith
    decide +kernel
  · exact (callee_defined hx "void A.a%é😀\x00").1.2 (Or.inl (by decide))

end CallIndex.Index
