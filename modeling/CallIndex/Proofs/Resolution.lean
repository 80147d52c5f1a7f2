import CallIndex.Proofs.Accounting
import Mathlib.Data.List.TakeWhile

/-!
# What a callee text names

A callee may lack its parameter list, so it names one of the stored signatures that start with it. The
database compares as many characters as it counts in the callee, and it counts only up to a null
character.

* `isCandidate_iff`: a candidate starts with the callee, and the callee has no null character.
* `Index.Names`: the method that a callee names: the one with exactly this signature, or else the
  candidate with the least id. In a well-formed index just this method is found
  (`resolveCallee_eq_some_iff`), and none is found just when there is no candidate
  (`resolveCallee_eq_none_iff`).
* `edgeOf?_eq_some_iff`: a call names an edge just when its caller is stored and its callee names a
  method.
* `Index.Recorded`: a call of a batch is written as an edge, and not reported as skipped.
* `Index.exact_callee_resolves`: **a stored signature names its own method, unless it has a null
  character**, and so a call between two stored methods is recorded as the edge between them.
-/

namespace CallIndex.Index

variable {refuse : Refusal} {x y : Index} {b : Batch} {r : Report} {m k : Method} {callee : String}
  {c : CallInput} {e : RowId × RowId}

/-! ## Candidates -/

/-- The database counts all of a text just when there is no null character in it. -/
theorem storedLength_eq_iff (text : List Char) :
    storedLength text = text.length ↔ '\x00' ∉ text := by
  have hcounted : text.takeWhile (fun c => decide (c ≠ '\x00')) <+: text := List.takeWhile_prefix _
  have hself : text.takeWhile (fun c => decide (c ≠ '\x00')) = text ↔ '\x00' ∉ text := by
    rw [List.takeWhile_eq_self_iff]
    constructor
    · intro h hnull
      simpa using h _ hnull
    · intro h c hc
      exact decide_eq_true fun e => h (e ▸ hc)
  rw [← hself]
  exact ⟨hcounted.eq_of_length, congrArg List.length⟩

theorem storedLength_le (text : List Char) : storedLength text ≤ text.length :=
  (List.takeWhile_prefix _).length_le

/-- **A candidate starts with the callee**, character by character, and the callee has no null
character. -/
theorem isCandidate_iff :
    isCandidate callee m = true ↔
      '\x00' ∉ callee.toList ∧ callee.toList <+: m.signature.toList := by
  unfold isCandidate
  rw [decide_eq_true_iff, ← storedLength_eq_iff, List.prefix_iff_eq_take]
  constructor
  · intro h
    -- no more is taken than was counted, so all of the callee was counted
    have hlength := congrArg List.length h
    rw [List.length_take] at hlength
    have hle := storedLength_le callee.toList
    have hfull : storedLength callee.toList = callee.toList.length := by omega
    exact ⟨hfull, by rw [← hfull]; exact h.symm⟩
  · rintro ⟨hfull, htake⟩
    rw [hfull]
    exact htake.symm

theorem isCandidate_congr (h : m.signature = k.signature) :
    isCandidate callee m = isCandidate callee k := by
  unfold isCandidate
  rw [h]

/-- A signature is a candidate for itself, unless it has a null character. -/
theorem isCandidate_signature :
    isCandidate m.signature m = true ↔ '\x00' ∉ m.signature.toList := by
  rw [isCandidate_iff, and_iff_left List.prefix_rfl]

/-! ## The choice among candidates -/

theorem leastId_eq_none_iff {ms : List Method} : leastId ms = none ↔ ms = [] := by
  cases ms with
  | nil => exact ⟨fun _ => rfl, fun _ => rfl⟩
  | cons a ms =>
    unfold leastId
    constructor
    · intro h
      split at h
      · cases h
      · split at h <;> cases h
    · intro h
      cases h

theorem leastId_le {ms : List Method} (h : leastId ms = some m) : ∀ k ∈ ms, m.id ≤ k.id := by
  induction ms generalizing m with
  | nil => cases h
  | cons a ms ih =>
    unfold leastId at h
    split at h
    · rename_i hrest
      cases h
      rw [leastId_eq_none_iff.1 hrest]
      simp
    · rename_i other hrest
      have hother := ih hrest
      refine List.forall_mem_cons.2 ?_
      split at h <;> cases h <;> rename_i hlt
      · exact ⟨Int.le_of_lt hlt, hother⟩
      · exact ⟨Int.le_refl _, fun k hk => Int.le_trans (Int.not_lt.1 hlt) (hother k hk)⟩

/-- The method that a callee names: the one with exactly this signature, or else, if none has it, the
candidate that was stored first. -/
structure Names (x : Index) (callee : String) (m : Method) : Prop where
  stored : m ∈ x.methods
  candidate : isCandidate callee m = true
  chosen : m.signature = callee ∨
    callee ∉ signatures x.methods ∧ ∀ k ∈ x.methods, isCandidate callee k = true → m.id ≤ k.id

/-- A callee names one method at most. -/
theorem Names.unique (hx : WellFormed x) (hm : Names x callee m) (hk : Names x callee k) : m = k := by
  have hstored : ∀ {n : Method}, Names x callee n → n.signature = callee →
      callee ∈ signatures x.methods :=
    fun hn he => he ▸ List.mem_map_of_mem hn.stored
  rcases hm.chosen with hme | ⟨hnew, hmle⟩ <;> rcases hk.chosen with hke | ⟨hnew', hkle⟩
  · exact hx.methods.eq_of_key hm.stored hk.stored (hme.trans hke.symm)
  · exact absurd (hstored hm hme) hnew'
  · exact absurd (hstored hk hke) hnew
  · have hid : m.id = k.id := Int.le_antisymm (hmle k hk.stored hk.candidate)
      (hkle m hm.stored hm.candidate)
    exact hx.methods.eq_of_id hm.stored hk.stored hid

/-- A stored signature without a null character names its method. -/
theorem names_signature (hm : m ∈ x.methods) (hnull : '\x00' ∉ m.signature.toList) :
    Names x m.signature m :=
  ⟨hm, isCandidate_signature.2 hnull, Or.inl rfl⟩

/-- **No method is found just when there is no candidate.** -/
theorem resolveCallee_eq_none_iff :
    x.resolveCallee callee = none ↔ ∀ k ∈ x.methods, isCandidate callee k = false := by
  unfold resolveCallee
  rw [Option.orElse_eq_orElse, Option.orElse_eq_or, Option.or_eq_none_iff, leastId_eq_none_iff,
    and_iff_right_of_imp]
  · rw [List.filter_eq_nil_iff]
    simp only [Bool.not_eq_true]
  · intro hnil
    rw [hnil]
    rfl

theorem names_of_resolveCallee (h : x.resolveCallee callee = some m) : Names x callee m := by
  unfold resolveCallee at h
  rw [Option.orElse_eq_orElse, Option.orElse_eq_or, Option.or_eq_some_iff] at h
  rcases h with h | ⟨hnone, h⟩
  · obtain ⟨hm, hcandidate⟩ := List.mem_filter.1 (List.mem_of_find?_eq_some h)
    exact ⟨hm, hcandidate, Or.inl (by simpa using List.find?_some h)⟩
  · obtain ⟨hm, hcandidate⟩ := List.mem_filter.1 (mem_of_leastId h)
    refine ⟨hm, hcandidate, Or.inr ⟨?_, ?_⟩⟩
    · -- a method with this signature would be a candidate, as the callee has no null character
      intro hin
      obtain ⟨k, hk, rfl⟩ := List.mem_map.1 hin
      have hself := isCandidate_signature.2 (isCandidate_iff.1 hcandidate).1
      simpa using List.find?_eq_none.1 hnone k (List.mem_filter.2 ⟨hk, hself⟩)
    · intro k hk hkc
      exact leastId_le h k (List.mem_filter.2 ⟨hk, hkc⟩)

/-- **Just the method that a callee names is found.** -/
theorem resolveCallee_eq_some_iff (hx : WellFormed x) :
    x.resolveCallee callee = some m ↔ Names x callee m := by
  constructor
  · exact names_of_resolveCallee
  · intro hm
    cases h : x.resolveCallee callee with
    | none =>
      have hno := resolveCallee_eq_none_iff.1 h m hm.stored
      rw [hm.candidate] at hno
      cases hno
    | some k => rw [(names_of_resolveCallee h).unique hx hm]

theorem methodBySignature?_of_mem (hx : WellFormed x) (hm : m ∈ x.methods) :
    x.methodBySignature? m.signature = some m :=
  hx.methods.find?_key hm

/-- **A stored signature as a callee** names its own method, or none if it has a null character. -/
theorem resolveCallee_signature (hx : WellFormed x) (hm : m ∈ x.methods) :
    x.resolveCallee m.signature = if '\x00' ∈ m.signature.toList then none else some m := by
  split
  · rename_i hnull
    rw [resolveCallee_eq_none_iff]
    intro k _
    rw [← Bool.not_eq_true, isCandidate_iff]
    exact fun h => h.1 hnull
  · rename_i hnull
    exact (resolveCallee_eq_some_iff hx).2 (names_signature hm hnull)

/-! ## The edge of a call -/

/-- **A call names an edge** just when its caller is a stored signature and its callee names a method. -/
theorem edgeOf?_eq_some_iff (hx : WellFormed x) :
    x.edgeOf? c = some e ↔ ∃ caller ∈ x.methods, caller.signature = c.caller ∧
      ∃ target, Names x c.callee target ∧ e = (caller.id, target.id) := by
  unfold edgeOf?
  constructor
  · intro h
    obtain ⟨caller, hcaller, h⟩ := Option.bind_eq_some_iff.1 h
    obtain ⟨target, htarget, h⟩ := Option.bind_eq_some_iff.1 h
    have hfrom : caller.signature = c.caller := by simpa using List.find?_some hcaller
    exact ⟨caller, List.mem_of_find?_eq_some hcaller, hfrom, target, names_of_resolveCallee htarget,
      (Option.some.inj h).symm⟩
  · rintro ⟨caller, hcaller, hfrom, target, hnames, rfl⟩
    rw [← hfrom, methodBySignature?_of_mem hx hcaller, (resolveCallee_eq_some_iff hx).2 hnames]
    rfl

/-- The edge of a call whose caller and callee are both stored signatures. -/
theorem edgeOf?_stored (hx : WellFormed x) {caller callee : Method} (hcaller : caller ∈ x.methods)
    (hcallee : callee ∈ x.methods) (hfrom : caller.signature = c.caller)
    (hto : callee.signature = c.callee) :
    x.edgeOf? c = if '\x00' ∈ c.callee.toList then none else some (caller.id, callee.id) := by
  unfold edgeOf?
  rw [← hfrom, ← hto, methodBySignature?_of_mem hx hcaller, resolveCallee_signature hx hcallee]
  split <;> rfl

/-! ## Recorded calls -/

/-- An ingest records a call of its batch as an edge. The new rows are, in the order of the batch, the
edges that its calls name on the index that the ingest leaves, and this call names the edge. The report
does not list the call as skipped. -/
structure Recorded (x : Index) (b : Batch) (y : Index) (r : Report) (c : CallInput)
    (e : RowId × RowId) : Prop where
  names : y.edgeOf? c = some e
  rows : ∃ added, y.calls = x.calls ++ added ∧ added.map ends = b.calls.filterMap y.edgeOf?
  unskipped : callItem c ∉ r.skipped.map Skipped.item

theorem callItem_injective {c' : CallInput} (h : callItem c = callItem c') : c = c' := by
  cases c
  cases c'
  cases h
  rfl

/-- A call of a batch is reported as skipped just when it names no edge. -/
theorem Accounts.callItem_mem_iff (h : Accounts x b y r) (hc : c ∈ b.calls) :
    callItem c ∈ r.skipped.map Skipped.item ↔ y.edgeOf? c = none := by
  obtain ⟨methods, calls, hskipped, hmethods, hcalls⟩ := h.skipped
  have hnot : callItem c ∉ methods.map Skipped.item := by
    intro hin
    obtain ⟨s, hs, hitem⟩ := List.mem_map.1 hin
    rw [hmethods] at hs
    obtain ⟨m, -, hm⟩ := List.mem_filterMap.1 hs
    rw [item_unplaced? hm] at hitem
    cases hitem
  rw [hskipped, List.map_append, List.mem_append, or_iff_right hnot, hcalls, List.mem_map]
  constructor
  · rintro ⟨c', hc', he⟩
    rw [← callItem_injective he]
    simpa using (List.mem_filter.1 hc').2
  · intro hnone
    exact ⟨c, List.mem_filter.2 ⟨hc, by simp [hnone]⟩, rfl⟩

/-- **A call that names an edge is recorded.** -/
theorem Accounts.recorded (h : Accounts x b y r) (hc : c ∈ b.calls) (he : y.edgeOf? c = some e) :
    Recorded x b y r c e := by
  refine ⟨he, h.edges, ?_⟩
  rw [h.callItem_mem_iff hc, he]
  exact Option.some_ne_none e

/-- **A stored signature resolves to its own method**, the one that an exact look-up finds, whatever
other signatures extend it. Only a signature with a null character resolves to none. So when a batch is
written, a call between two methods that are stored then is recorded as the edge between just these
two, unless there is a null character in its callee; then it is skipped. -/
theorem exact_callee_resolves (hx : Reachable x) :
    (∀ m ∈ x.methods, x.methodBySignature? m.signature = some m ∧
      x.resolveCallee m.signature = if '\x00' ∈ m.signature.toList then none else some m) ∧
    ∀ refuse b y r, x.ingest refuse b = (y, .ok r) → ∀ c ∈ b.calls,
      ∀ caller ∈ y.methods, ∀ callee ∈ y.methods, caller.signature = c.caller →
        callee.signature = c.callee →
        if '\x00' ∈ c.callee.toList then callItem c ∈ r.skipped.map Skipped.item
        else Recorded x b y r c (caller.id, callee.id) := by
  have hwx := hx.wellFormed
  constructor
  · intro m hm
    exact ⟨methodBySignature?_of_mem hwx hm, resolveCallee_signature hwx hm⟩
  · intro refuse b y r h c hc caller hcaller callee hcallee hfrom hto
    obtain ⟨hb, hw⟩ := written_of_ingest hwx h
    have hwy := hw.wellFormed hwx hb
    have haccounts := hw.accounts hwx hwy
    have hedge := edgeOf?_stored hwy hcaller hcallee hfrom hto
    split
    · rename_i hnull
      rw [if_pos hnull] at hedge
      exact (haccounts.callItem_mem_iff hc).2 hedge
    · rename_i hnull
      rw [if_neg hnull] at hedge
      exact haccounts.recorded hc hedge

/-- A callee that an older signature extends. The caller has a null character, and so has the callee of
the call that is skipped. -/
theorem exact_callee_resolves_extended :
    let b : Batch := ⟨"demo", "A.java", ["A"],
      [⟨"void A.g()", "", none, none⟩, ⟨"void A.f\x00()", "", none, none⟩,
        ⟨"void A.g", "", none, none⟩],
      [⟨"void A.f\x00()", "void A.g"⟩, ⟨"void A.g", "void A.f\x00()"⟩]⟩
    let y := (Index.empty.ingest .never b).1
    let r : Report := ⟨1, 1, 1, 3, 0, 1, [.calleeUnresolved "void A.g" "void A.f\x00()"]⟩
    Index.empty.ingest .never b = (y, .ok r) ∧ y.calls.map ends = [(2, 3)] ∧
      Recorded .empty b y r ⟨"void A.f\x00()", "void A.g"⟩ (2, 3) ∧
      callItem ⟨"void A.g", "void A.f\x00()"⟩ ∈ r.skipped.map Skipped.item := by
  intro b y r
  have h : Index.empty.ingest .never b = (y, .ok r) := by decide +kernel
  have hf : (⟨2, 1, "f\x00()", "void A.f\x00()", "", none, none⟩ : Method) ∈ y.methods := by
    decide +kernel
  have hg : (⟨3, 1, "g", "void A.g", "", none, none⟩ : Method) ∈ y.methods := by decide +kernel
  obtain ⟨-, hcalls⟩ := exact_callee_resolves Reachable.empty
  have hcall := hcalls _ _ _ _ h ⟨"void A.f\x00()", "void A.g"⟩ (by decide) _ hf _ hg rfl rfl
  have hback := hcalls _ _ _ _ h ⟨"void A.g", "void A.f\x00()"⟩ (by decide) _ hg _ hf rfl rfl
  rw [if_neg (by decide)] at hcall
  rw [if_pos (by decide)] at hback
  exact ⟨h, by decide +kernel, hcall, hback⟩

/-- A stored signature with a null character: an exact look-up finds its method, and as a callee it
resolves to none. The call to it is skipped, although both of its methods are stored. -/
theorem null_callee_unresolved :
    let b : Batch := ⟨"demo", "A.java", ["A"],
      [⟨"void A.f()", "one", none, none⟩, ⟨"void A.g\x00()", "two", none, none⟩],
      [⟨"void A.f()", "void A.g\x00()"⟩]⟩
    let m : Method := ⟨2, 1, "g\x00()", "void A.g\x00()", "two", none, none⟩
    let y := (Index.empty.ingest .never b).1
    Reachable y ∧
      Index.empty.ingest .never b = (y, .ok ⟨1, 1, 1, 2, 0, 0,
        [.calleeUnresolved "void A.f()" "void A.g\x00()"]⟩) ∧
      m ∈ y.methods ∧ y.methodBySignature? m.signature = some m ∧
      y.resolveCallee m.signature = none ∧ y.calls = [] := by
  intro b m y
  exact ⟨Reachable.empty.apply .never (.ingest b), by decide +kernel⟩

end CallIndex.Index
