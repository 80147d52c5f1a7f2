import CallIndex.Proofs.Invariant

/-!
# All or nothing

An ingest or a clear that fails changes no row, whichever of its writes is refused. A list of batches
has two policies: it is checked as a whole before the first write, and then a batch that fails leaves
what the batches before it wrote.

* `Index.Refused`: the database refuses a write of this batch on this index.
* `Index.ingest_valid`: a valid batch is written, unless one of its writes is refused.
* `Index.ingestEach_append`: a list of batches after another one starts where that one ended.
* `Index.ingestEach_error_iff`: how a list of valid batches fails.
* `Index.all_or_nothing`: the whole of it.
-/

namespace CallIndex.Index

/-- The database refuses a write of a batch. The fault is that of the first such write. -/
def Refused (refuse : Refusal) (x : Index) (b : Batch) (fault : DatabaseFault) : Prop :=
  ∃ ws r, x.Journal b ws r ∧ ws.findSome? refuse = some fault

variable {refuse : Refusal} {x y : Index} {b : Batch}

/-! ## One batch -/

theorem ingest_error {e : Error} (h : x.ingest refuse b = (y, .error e)) : y = x := by
  rcases ingest_cases refuse x b with ⟨e', he⟩ | ⟨z, r, hz, -, -⟩
  · rw [he] at h; cases h; rfl
  · rw [hz] at h; cases h

/-- A valid batch makes all the writes of its journal, or none. -/
theorem ingest_journal (refuse : Refusal) (hb : b.Valid) {ws : List Write} {r : Report} (h : x.Journal b ws r) :
    x.ingest refuse b = match ws.findSome? refuse with
      | some fault => (x, .error (.database fault))
      | none => (x.performAll ws, .ok r) := by
  unfold ingest
  have hw : writeBatch refuse x b = _ := h refuse
  rw [Batch.validate_eq_ok_iff.2 hb]
  show x.commit (writeBatch refuse x b) = _
  rw [hw]
  cases ws.findSome? refuse <;> rfl

/-- **A valid batch is written, unless one of its writes is refused.** -/
theorem ingest_valid (refuse : Refusal) (x : Index) (hb : b.Valid) :
    (∃ fault, x.ingest refuse b = (x, .error (.database fault)) ∧ Refused refuse x b fault) ∨
      ∃ y r, x.ingest refuse b = (y, .ok r) := by
  obtain ⟨ws, r, hj⟩ := exists_journal x b
  have hrun := ingest_journal refuse hb hj
  cases hw : ws.findSome? refuse with
  | some fault =>
    rw [hw] at hrun
    exact Or.inl ⟨fault, hrun, ws, r, hj, hw⟩
  | none =>
    rw [hw] at hrun
    exact Or.inr ⟨_, _, hrun⟩

/-- A valid batch fails in the database just when one of its writes is refused. -/
theorem ingest_refused_iff {fault : DatabaseFault} (hb : b.Valid) :
    x.ingest refuse b = (x, .error (.database fault)) ↔ Refused refuse x b fault := by
  constructor
  · intro h
    rcases ingest_valid refuse x hb with ⟨fault', hf, href⟩ | ⟨y, r, hy⟩
    · rw [h] at hf
      cases hf
      exact href
    · rw [h] at hy; cases hy
  · rintro ⟨ws, r, hj, hw⟩
    rw [ingest_journal refuse hb hj, hw]

/-! ## Lists of batches -/

/-- A list of batches after another one starts where that one ended. -/
theorem ingestEach_append {before : List Batch} {reports : List Report}
    (h : ingestEach refuse x before = (y, .ok reports)) (after : List Batch) :
    ingestEach refuse x (before ++ after) = match ingestEach refuse y after with
      | (z, .error e) => (z, .error e)
      | (z, .ok more) => (z, .ok (reports ++ more)) := by
  induction before generalizing x reports with
  | nil =>
    cases h
    rw [List.nil_append]
    obtain ⟨z, rest⟩ := ingestEach refuse y after
    cases rest <;> rfl
  | cons b before ih =>
    obtain ⟨x', r, rest, hr, hrest, rfl⟩ := ingestEach_cons_ok h
    rw [List.cons_append, ingestEach, hr]
    dsimp only
    rw [ih hrest]
    obtain ⟨z, more⟩ := ingestEach refuse y after
    cases more <;> rfl

/-- Batches that are all written are ingested one at a time. -/
theorem ingestEach_run {bs : List Batch} {reports : List Report}
    (h : ingestEach refuse x bs = (y, .ok reports)) :
    y = x.run (bs.map fun b => (refuse, .ingest b)) := by
  induction bs generalizing x reports with
  | nil => cases h; rfl
  | cons b bs ih =>
    obtain ⟨x', r, rest, hr, hrest, rfl⟩ := ingestEach_cons_ok h
    have hx' : x' = Operation.apply refuse x (.ingest b) := (congrArg Prod.fst hr).symm
    rw [ih hrest, hx']
    rfl

/-- **How a list of valid batches fails**: at a batch with a refused write, on the index that the
batches before it left. -/
theorem ingestEach_error_iff {bs : List Batch} {e : Error} (hbs : ∀ b ∈ bs, b.Valid) :
    ingestEach refuse x bs = (y, .error e) ↔
      ∃ before b after reports fault, bs = before ++ b :: after ∧
        ingestEach refuse x before = (y, .ok reports) ∧ Refused refuse y b fault ∧
        e = .database fault := by
  constructor
  · intro h
    induction bs generalizing x with
    | nil => cases h
    | cons b bs ih =>
      rw [ingestEach] at h
      rcases ingest_valid refuse x (hbs b List.mem_cons_self) with ⟨fault, hb, href⟩ | ⟨z, r, hb⟩ <;>
        rw [hb] at h
      · -- the first batch fails
        cases h
        exact ⟨[], b, bs, [], fault, rfl, rfl, href, rfl⟩
      · -- it is written, and a later one fails
        have hrest : ingestEach refuse z bs = (y, .error e) := by
          dsimp only at h
          split at h
          · rename_i hz; rw [hz, h]
          · cases h
        obtain ⟨before, b', after, reports, fault, hsplit, hbefore, href, he⟩ :=
          ih (fun b' hb' => hbs b' (List.mem_cons_of_mem _ hb')) hrest
        refine ⟨b :: before, b', after, r :: reports, fault, by rw [hsplit]; rfl, ?_, href, he⟩
        rw [ingestEach, hb]
        dsimp only
        rw [hbefore]
  · rintro ⟨before, b, after, reports, fault, rfl, hbefore, href, rfl⟩
    have hb : b.Valid := hbs b (by simp)
    rw [ingestEach_append hbefore, ingestEach, (ingest_refused_iff hb).2 href]

theorem ingestAll_of_valid {bs : List Batch} (hbs : ∀ b ∈ bs, b.Valid) :
    x.ingestAll refuse bs = ingestEach refuse x bs := by
  unfold ingestAll
  rw [validateAll_eq_ok_iff.2 hbs]

/-- The same for a list that is checked first. -/
theorem ingestAll_error_iff {bs : List Batch} {e : Error} (hbs : ∀ b ∈ bs, b.Valid) :
    x.ingestAll refuse bs = (y, .error e) ↔
      ∃ before b after reports fault, bs = before ++ b :: after ∧
        x.ingestAll refuse before = (y, .ok reports) ∧
        y = x.run (before.map fun a => (refuse, .ingest a)) ∧ Refused refuse y b fault ∧
        e = .database fault := by
  rw [ingestAll_of_valid hbs, ingestEach_error_iff hbs]
  constructor
  · rintro ⟨before, b, after, reports, fault, rfl, hbefore, href, he⟩
    have hvalid : ∀ a ∈ before, a.Valid := fun a ha => hbs a (List.mem_append_left _ ha)
    exact ⟨before, b, after, reports, fault, rfl, (ingestAll_of_valid hvalid).trans hbefore,
      ingestEach_run hbefore, href, he⟩
  · rintro ⟨before, b, after, reports, fault, rfl, hbefore, -, href, he⟩
    have hvalid : ∀ a ∈ before, a.Valid := fun a ha => hbs a (List.mem_append_left _ ha)
    exact ⟨before, b, after, reports, fault, rfl, (ingestAll_of_valid hvalid).symm.trans hbefore,
      href, he⟩

/-- A list with a batch that is not valid is refused for the first one, before any write. -/
theorem ingestAll_of_invalid {bs : List Batch} (h : ∃ b ∈ bs, ¬ b.Valid) :
    ∃ before b after f, bs = before ++ b :: after ∧ (∀ a ∈ before, a.Valid) ∧ b.BlankFirst f ∧
      x.ingestAll refuse bs = (x, .error (.validation (f.path ++ " is required"))) := by
  obtain ⟨before, b, after, f, rfl, hvalid, hf⟩ := exists_first_invalid h
  refine ⟨before, b, after, f, rfl, hvalid, hf, ?_⟩
  unfold ingestAll
  rw [validateAll_of_first hvalid hf]
  rfl

/-! ## The whole of it -/

/-- **All or nothing.** This is on any index, whatever the database refuses. An ingest that fails
leaves the index, and a valid batch fails in the database just when one of its writes is refused. A
list with a blank field is refused for the first one, before any write. A list of valid batches fails
at the first batch with a refused write and keeps what the batches before it wrote. A text that does
not decode changes nothing. A clear deletes every row, or none if one of its deletes is refused. -/
theorem all_or_nothing (refuse : Refusal) (x : Index) :
    (∀ b y e, x.ingest refuse b = (y, .error e) → y = x) ∧
    (∀ b fault, b.Valid →
      (x.ingest refuse b = (x, .error (.database fault)) ↔ Refused refuse x b fault)) ∧
    (∀ bs, (∃ b ∈ bs, ¬ b.Valid) →
      ∃ before b after f, bs = before ++ b :: after ∧ (∀ a ∈ before, a.Valid) ∧ b.BlankFirst f ∧
        x.ingestAll refuse bs = (x, .error (.validation (f.path ++ " is required")))) ∧
    (∀ bs y e, (∀ b ∈ bs, b.Valid) →
      (x.ingestAll refuse bs = (y, .error e) ↔
        ∃ before b after reports fault, bs = before ++ b :: after ∧
          x.ingestAll refuse before = (y, .ok reports) ∧
          y = x.run (before.map fun a => (refuse, .ingest a)) ∧ Refused refuse y b fault ∧
          e = .database fault)) ∧
    (∀ text e, Batch.parse text = .error e → x.ingestJson refuse text = (x, .error e)) ∧
    x.clear refuse = match x.deletions.findSome? refuse with
      | some fault => (x, .error (.database fault))
      | none => (.empty, .ok ()) := by
  refine ⟨?_, ?_, ?_, ?_, ?_, x.clear_eq refuse⟩
  · intro b y e h
    exact ingest_error h
  · intro b fault hb
    exact ingest_refused_iff hb
  · intro bs h
    exact ingestAll_of_invalid h
  · intro bs y e hbs
    exact ingestAll_error_iff hbs
  · intro text e h
    unfold ingestJson
    rw [h]

/-- A guard on calls: the batch with a call fails, the one before it stays, the one after it is not
written. -/
theorem all_or_nothing_call_guard :
    let refuse := Guard.refusal [⟨.insert, .methodCalls, "no calls", none⟩]
    let first : Batch := ⟨"demo", "A.java", ["A"], [⟨"void A.f()", "", none, none⟩], []⟩
    let calling : Batch := ⟨"demo", "B.java", ["B"], [], [⟨"void A.f()", "void A.f"⟩]⟩
    let later : Batch := ⟨"other", "C.java", [], [], []⟩
    let stored : Index :=
      ⟨[⟨1, "demo"⟩], [⟨1, 1, "A.java"⟩], [⟨1, 1, "A"⟩],
        [⟨1, 1, "f()", "void A.f()", "", none, none⟩], []⟩
    Index.empty.ingestAll refuse [first, calling, later] =
        (stored, .error (.database (.rejected "no calls"))) ∧
      Refused refuse stored calling (.rejected "no calls") := by
  intro refuse first calling later stored
  have hvalid : ∀ b ∈ [first, calling, later], b.Valid :=
    validateAll_eq_ok_iff.1 (by decide +kernel)
  have hrefused : Refused refuse stored calling (.rejected "no calls") :=
    ((all_or_nothing refuse stored).2.1 calling _ (hvalid calling (by simp))).1 (by decide +kernel)
  refine ⟨?_, hrefused⟩
  refine ((all_or_nothing refuse .empty).2.2.2.1 _ _ _ hvalid).2 ?_
  exact ⟨[first], calling, [later], [⟨1, 1, 1, 1, 0, 0, []⟩], _, rfl, by decide +kernel,
    by decide +kernel, hrefused, rfl⟩

end CallIndex.Index
