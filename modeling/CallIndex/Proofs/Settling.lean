import CallIndex.Proofs.Replay

/-!
# Running the same list until it succeeds

A list of batches that failed half-way, or whose calls named methods of later batches, is run again.

* `Index.retry_converges`: **a retry ends where one run without a failure would have ended**, and no
  edge of that run is lost.
* `Index.Passes`: any number of runs of the same list, each written as a whole.
* `Index.passes_settle`: **from the second pass on nothing new happens.** Each pass adds the same edges,
  those that the calls make on the final table of methods.
-/

namespace CallIndex.Index

variable {x y z u : Index} {bs : List Batch}

/-! ## A retry -/

/-- **A retry converges.** A run of a list fails at some batch. A second run of the whole list on what
it left succeeds. Then the projects, the documents, the classes and the methods are those of one run
that never failed, and each edge of that run is there, as often and in the same order. -/
theorem retry_converges {refuse refuse' refuse'' : Refusal} {e : Error} {reports reports' : List Report}
    (hx : Reachable x) (hfail : x.ingestAll refuse bs = (y, .error e))
    (hretry : y.ingestAll refuse' bs = (z, .ok reports))
    (honce : x.ingestAll refuse'' bs = (u, .ok reports')) :
    SameEntities z u ∧ (u.calls.map ends).Sublist (z.calls.map ends) := by
  have hwx := hx.wellFormed
  obtain ⟨esOnce, hwOnce⟩ := writtenEach_of_ingestAll hwx honce
  -- the failed run wrote a first part of the list
  have hvalid : ∀ b ∈ bs, b.Valid := hwOnce.valid
  obtain ⟨before, b, after, _, _, rfl, hbefore, -, -, -⟩ := (ingestAll_error_iff hvalid).1 hfail
  obtain ⟨esBefore, hwBefore⟩ := writtenEach_of_ingestAll hwx hbefore
  have hwy := hwBefore.wellFormed hwx
  obtain ⟨esRetry, hwRetry⟩ := writtenEach_of_ingestAll hwy hretry
  obtain ⟨v, _, _, esAgain, esRest, hwAgain, hwRest, rfl⟩ := hwRetry.split
  obtain ⟨w, _, _, esBefore', esRest', hwBefore', hwRest', rfl⟩ := hwOnce.split
  -- replaying it leaves the entities, and so do both ways to write it the first time
  obtain ⟨hvy, -⟩ := (hwBefore.settled hwx).replay hwAgain hwy
  obtain ⟨hyw, -, hes⟩ := hwBefore.congr hwBefore' hwx (.refl x)
  obtain ⟨hzu, -, hesRest⟩ := hwRest.congr hwRest' (hwAgain.wellFormed hwy) (hvy.trans hyw)
  refine ⟨hzu, ?_⟩
  rw [hwRest'.ends_calls, hwBefore'.ends_calls, hwRest.ends_calls, hwAgain.ends_calls,
    hwBefore.ends_calls, ← hes, ← hesRest]
  exact (List.sublist_append_left _ _).append_right _

/-- Two batches give a method different texts, and the database refuses the document of the third one
until the retry. -/
theorem retry_converges_third_batch :
    let refuse := Guard.refusal [⟨.insert, .documents, "full", some ("path", "C.java")⟩]
    let bs : List Batch :=
      [⟨"demo", "A.java", ["A"],
        [⟨"void A.f()", "one", some 1, some 3⟩, ⟨"void B.g()", "", none, none⟩], []⟩,
      ⟨"demo", "B.java", ["B"],
        [⟨"void B.g()", "", none, none⟩, ⟨"void A.f()", "two", none, some 9⟩],
        [⟨"void B.g()", "void A.f"⟩]⟩,
      ⟨"demo", "C.java", ["C"], [⟨"void C.h()", "", none, none⟩],
        [⟨"void A.f()", "void C.h"⟩]⟩]
    let y := (Index.empty.ingestAll refuse bs).1
    let z := (y.ingestAll .never bs).1
    let u := (Index.empty.ingestAll .never bs).1
    Index.empty.ingestAll refuse bs = (y, .error (.database (.rejected "full"))) ∧
      z.calls.map ends = [(2, 1), (2, 1), (1, 3)] ∧ u.calls.map ends = [(2, 1), (1, 3)] ∧
      SameEntities z u ∧ (u.calls.map ends).Sublist (z.calls.map ends) := by
  intro refuse bs y z u
  have hfail : Index.empty.ingestAll refuse bs = (y, .error (.database (.rejected "full"))) := by
    decide +kernel
  have hretry : y.ingestAll .never bs =
      (z, .ok [⟨1, 1, 1, 0, 2, 0, []⟩, ⟨1, 2, 1, 0, 2, 1, []⟩, ⟨1, 3, 1, 1, 0, 1, []⟩]) := by
    decide +kernel
  have honce : Index.empty.ingestAll .never bs =
      (u, .ok [⟨1, 1, 1, 1, 0, 0, [.classNotListed "void B.g()" "B"]⟩, ⟨1, 2, 1, 1, 1, 1, []⟩,
        ⟨1, 3, 1, 1, 0, 1, []⟩]) := by
    decide +kernel
  exact ⟨hfail, by decide +kernel, by decide +kernel,
    retry_converges Reachable.empty hfail hretry honce⟩

/-! ## Passes -/

/-- Any number of passes over the same batches, each written as a whole. -/
inductive Passes (bs : List Batch) (x : Index) : Index → Prop where
  | none : Passes bs x x
  | more {y z : Index} {refuse : Refusal} {reports : List Report} (h : Passes bs x y)
      (hpass : y.ingestAll refuse bs = (z, .ok reports)) : Passes bs x z

/-- A list of valid batches is written if nothing is refused. -/
theorem exists_ingestAll_never (hbs : ∀ b ∈ bs, b.Valid) (x : Index) :
    ∃ y reports, x.ingestAll .never bs = (y, .ok reports) := by
  rcases hrun : x.ingestAll .never bs with ⟨y, e | reports⟩
  · -- a failure needs a refused write
    obtain ⟨_, _, _, _, fault, -, -, -, ⟨ws, r, -, hws⟩, -⟩ := (ingestAll_error_iff hbs).1 hrun
    have hnone : ws.findSome? Refusal.never = none := by simp [Refusal.never]
    rw [hnone] at hws
    cases hws
  · exact ⟨y, reports, rfl⟩

/-- What holds after the second pass, after any more of them: the batches are settled, the entities
are those of the second pass, and so are the ends of the edges, if repeated ones count once. -/
theorem Passes.settled (h : Passes bs x y) (hx : WellFormed x) (hbs : Settled bs x)
    (hedges : ∀ b ∈ bs, ∀ e ∈ x.edges b.calls, e ∈ x.calls.map ends) :
    WellFormed y ∧ Settled bs y ∧ SameEntities y x ∧
      ∀ e, e ∈ y.calls.map ends ↔ e ∈ x.calls.map ends := by
  induction h with
  | none => exact ⟨hx, hbs, .refl x, fun _ => Iff.rfl⟩
  | @more y z _ _ _ hpass ih =>
    obtain ⟨hy, hsettled, hsame, hends⟩ := ih
    obtain ⟨es, hw⟩ := writtenEach_of_ingestAll hy hpass
    obtain ⟨hzy, rfl⟩ := hsettled.replay hw hy
    refine ⟨hw.wellFormed hy, hw.settled hy, hzy.trans hsame, ?_⟩
    intro e
    rw [hw.ends_calls, List.mem_append, hends, List.mem_flatMap]
    constructor
    · rintro (he | ⟨b, hb, he⟩)
      · exact he
      · -- the edges of one more pass are those of the second
        rw [edges_congr hsame.methods] at he
        exact hedges b hb e he
    · exact Or.inl

/-- **Passes settle the edges.** If no write is refused, a list of valid batches is always written. Let
it be written twice, whatever is refused. Each further pass leaves the projects, the documents, the
classes and the methods, reports what the second one reported and adds the edges that the second one
added; so the set of distinct edges stays. Among these edges is that of each call whose caller is
stored in the end and whose callee resolves there, wherever in the list their methods stand. -/
theorem passes_settle (hx : Reachable x) (hbs : ∀ b ∈ bs, b.Valid) :
    (∀ u : Index, ∃ v reports, u.ingestAll .never bs = (v, .ok reports)) ∧
    ∀ refuse refuse' y z first second, x.ingestAll refuse bs = (y, .ok first) →
      y.ingestAll refuse' bs = (z, .ok second) →
      ∃ edges, z.calls.map ends = y.calls.map ends ++ edges ∧
        (∀ u, Passes bs z u → SameEntities u z ∧
          (∀ e, e ∈ u.calls.map ends ↔ e ∈ z.calls.map ends) ∧
          ∀ refuse v reports, u.ingestAll refuse bs = (v, .ok reports) →
            SameEntities v u ∧ reports = second ∧
              ∃ added, v.calls = u.calls ++ added ∧ added.map ends = edges) ∧
        ∀ b ∈ bs, ∀ c ∈ b.calls, ∀ caller callee, z.methodBySignature? c.caller = some caller →
          z.resolveCallee c.callee = some callee → (caller.id, callee.id) ∈ edges := by
  refine ⟨exists_ingestAll_never hbs, ?_⟩
  intro refuse refuse' y z first second h h'
  have hwx := hx.wellFormed
  obtain ⟨esFirst, hwFirst⟩ := writtenEach_of_ingestAll hwx h
  have hwy := hwFirst.wellFormed hwx
  obtain ⟨esSecond, hwSecond⟩ := writtenEach_of_ingestAll hwy h'
  have hwz := hwSecond.wellFormed hwy
  obtain ⟨hzy, hes⟩ := (hwFirst.settled hwx).replay hwSecond hwy
  -- the second pass makes the edges of the final methods
  have hedges : ∀ b ∈ bs, ∀ e ∈ z.edges b.calls, e ∈ esSecond := by
    intro b hb e he
    rw [edges_congr hzy.methods] at he
    rw [hes]
    exact List.mem_flatMap.2 ⟨b, hb, he⟩
  refine ⟨esSecond, hwSecond.ends_calls, ?_, ?_⟩
  · intro u hu
    have hstored : ∀ b ∈ bs, ∀ e ∈ z.edges b.calls, e ∈ z.calls.map ends := by
      intro b hb e he
      rw [hwSecond.ends_calls]
      exact List.mem_append_right _ (hedges b hb e he)
    obtain ⟨hwu, hsettled, huz, hends⟩ := hu.settled hwz (hwSecond.settled hwy) hstored
    refine ⟨huz, hends, ?_⟩
    intro refuse v reports hv
    obtain ⟨es, hw⟩ := writtenEach_of_ingestAll hwu hv
    -- both passes start from the same rows
    obtain ⟨-, hreports, hesSame⟩ := hw.congr hwSecond hwu (huz.trans hzy)
    obtain ⟨added, hadded, hends⟩ := hw.calls
    exact ⟨(hsettled.replay hw hwu).1, hreports, added, hadded, hends.trans hesSame⟩
  · intro b hb c hc caller callee hcaller hcallee
    refine hedges b hb _ (List.mem_filterMap.2 ⟨c, hc, ?_⟩)
    unfold edge
    rw [hcaller, hcallee]
    rfl

/-- The first pass skips a call to a method of the second batch. The second pass finds it, and the
third one adds the same edge again. -/
theorem passes_settle_later_callee :
    let bs : List Batch :=
      [⟨"demo", "A.java", ["A"], [⟨"void A.f()", "one", none, none⟩],
        [⟨"void A.f()", "void B.g"⟩]⟩,
      ⟨"demo", "B.java", ["B"],
        [⟨"void B.g()", "", none, none⟩, ⟨"void A.f()", "two", none, none⟩], []⟩]
    let y := (Index.empty.ingestAll .never bs).1
    let z := (y.ingestAll .never bs).1
    let u := (z.ingestAll .never bs).1
    y.calls = [] ∧ z.calls.map ends = [(1, 2)] ∧ SameEntities u z ∧
      ∃ added, u.calls = z.calls ++ added ∧ added.map ends = [(1, 2)] := by
  intro bs y z u
  have hbs : ∀ b ∈ bs, b.Valid := validateAll_eq_ok_iff.1 (by decide +kernel)
  obtain ⟨hrun, hpasses⟩ := passes_settle Reachable.empty hbs
  obtain ⟨_, first, h⟩ := hrun .empty
  obtain ⟨_, second, h'⟩ := hrun y
  obtain ⟨_, third, h''⟩ := hrun z
  obtain rfl : _ = y := (congrArg Prod.fst h).symm
  obtain rfl : _ = z := (congrArg Prod.fst h').symm
  obtain rfl : _ = u := (congrArg Prod.fst h'').symm
  obtain ⟨edges, hends, hfurther, -⟩ := hpasses _ _ _ _ _ _ h h'
  obtain ⟨-, -, hthird⟩ := hfurther z .none
  obtain ⟨hsame, -, added, hadded, hedges⟩ := hthird _ _ _ h''
  have hy : y.calls = [] := by decide +kernel
  have hz : z.calls.map ends = [(1, 2)] := by decide +kernel
  rw [hy, hz] at hends
  exact ⟨hy, hz, hsame, added, hadded, hedges.trans hends.symm⟩

end CallIndex.Index
