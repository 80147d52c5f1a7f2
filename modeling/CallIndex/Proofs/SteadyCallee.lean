import CallIndex.Proofs.Growth
import CallIndex.Proofs.Resolution

/-!
# A callee keeps its method

Which method a callee names is asked again by every batch that makes the call. The answer changes once
at most. New methods get larger ids than all old ones, so the first candidate stays the first, and only
a method with exactly the text of the callee comes before it.

* `Index.Later`: an index some operations later, none of them a clear.
* `Grows.old_or_new`: a method of a grown index was there, or it has a larger id than all that were.
* `Names.grow`: a callee names a method in every grown index, and the same one while no method has
  exactly its text. A method with exactly its text stays the one (`Names.grow_exact`).
* `Grows.edgeOf?`: so does a call, and its edge.
* `Index.callee_steady`: **a callee that resolves does so for good**, and a recorded call is recorded
  again whenever its batch is.
-/

namespace CallIndex.Index

variable {refuse : Refusal} {x y z : Index} {b : Batch} {r : Report} {m k : Method} {callee : String}
  {c : CallInput} {e : RowId × RowId}

/-- Some operations lead from the first index to the second, finished or failed, and none of them is a
clear. -/
def Later (x y : Index) : Prop :=
  ∃ ops : List (Refusal × Operation), (∀ op ∈ ops, op.2 ≠ .clear) ∧ x.run ops = y

namespace Later

theorem wellFormed (h : Later x y) (hx : Reachable x) : WellFormed y := by
  obtain ⟨ops, -, rfl⟩ := h
  exact (hx.run ops).wellFormed

theorem reachable (h : Later x y) (hx : Reachable x) : Reachable y := by
  obtain ⟨ops, -, rfl⟩ := h
  exact hx.run ops

theorem grows (h : Later x y) (hx : Reachable x) : Grows x y := by
  obtain ⟨ops, hops, rfl⟩ := h
  exact grows_run hx.wellFormed hops

end Later

/-! ## One callee -/

/-- **A method of a grown index** was there before, perhaps with another text, or its id is larger than
those of all methods that were. -/
theorem Grows.old_or_new (h : Grows x y) (hy : WellFormed y) (hk : k ∈ y.methods) :
    (∃ m ∈ x.methods, k.bare = m.bare) ∨ ∀ m ∈ x.methods, m.id < k.id := by
  obtain ⟨added, hadded⟩ := h.methods
  -- texts aside, the methods are the old ones and the new ones behind them, in ascending order
  have hascending : (y.methods.map Method.bare).Pairwise fun m k => m.id < k.id :=
    List.pairwise_map.2 hy.methods.ascending
  rw [← hadded, List.pairwise_append] at hascending
  have hmem : k.bare ∈ x.methods.map Method.bare ++ added := hadded ▸ List.mem_map_of_mem hk
  rcases List.mem_append.1 hmem with hold | hnew
  · obtain ⟨m, hm, hbare⟩ := List.mem_map.1 hold
    exact Or.inl ⟨m, hm, hbare.symm⟩
  · right
    intro m hm
    exact hascending.2.2 m.bare (List.mem_map_of_mem hm) k.bare hnew

/-- **A callee names a method in every grown index**: the same one, as long as no method has exactly the
text of the callee. -/
theorem Names.grow (h : Names x callee m) (hxy : Grows x y) (hy : WellFormed y) :
    ∃ k, Names y callee k ∧ (callee ∉ signatures y.methods → k.bare = m.bare) := by
  obtain ⟨m', hm', hbare⟩ := hxy.exists_method h.stored
  obtain ⟨hid, -, -, hsignature⟩ := Method.bare_eq_iff.1 hbare
  have hcandidate : isCandidate callee m' = true := isCandidate_congr hsignature ▸ h.candidate
  cases hk : y.resolveCallee callee with
  | none =>
    rw [resolveCallee_eq_none_iff.1 hk m' hm'] at hcandidate
    cases hcandidate
  | some k =>
    have hnames := names_of_resolveCallee hk
    refine ⟨k, hnames, fun hfree => ?_⟩
    have hinexact : ∀ n ∈ y.methods, n.signature ≠ callee :=
      fun n hn he => hfree (he ▸ List.mem_map_of_mem hn)
    have hkm : k.id ≤ m'.id :=
      (hnames.chosen.resolve_left (hinexact k hnames.stored)).2 m' hm' hcandidate
    rcases hxy.old_or_new hy hnames.stored with ⟨n, hn, hkn⟩ | hlarger
    · -- an old candidate does not come before the first one of then
      obtain ⟨hnid, -, -, hnsignature⟩ := Method.bare_eq_iff.1 hkn
      have hmn := (h.chosen.resolve_left (hsignature ▸ hinexact m' hm')).2 n hn
        (isCandidate_congr hnsignature ▸ hnames.candidate)
      have hmk : m'.id ≤ k.id := hid.trans_le (hmn.trans_eq hnid.symm)
      rw [hy.methods.eq_of_id hnames.stored hm' (Int.le_antisymm hkm hmk), hbare]
    · -- and a new one has a larger id
      exact absurd (hkm.trans_eq hid) (Int.not_le.2 (hlarger m h.stored))

/-- **A callee that has exactly the text of a signature names its method for good.** -/
theorem Names.grow_exact (h : Names x m.signature m) (hxy : Grows x y) :
    ∃ k, Names y m.signature k ∧ k.bare = m.bare := by
  obtain ⟨k, hk, hbare⟩ := hxy.exists_method h.stored
  have hsignature : k.signature = m.signature := (Method.bare_eq_iff.1 hbare).2.2.2
  have hnull : '\x00' ∉ k.signature.toList := hsignature ▸ (isCandidate_iff.1 h.candidate).1
  exact ⟨k, hsignature ▸ names_signature hk hnull, hbare⟩

/-! ## One call -/

/-- **A call that names an edge names one in every grown index**, from the same caller, and to the same
callee as long as no method has exactly the text of the callee. -/
theorem Grows.edgeOf? (h : Grows x y) (hx : WellFormed x) (hy : WellFormed y)
    (he : x.edgeOf? c = some e) :
    ∃ e', y.edgeOf? c = some e' ∧ e'.1 = e.1 ∧ (c.callee ∉ signatures y.methods → e' = e) := by
  obtain ⟨caller, hcaller, hfrom, target, hnames, rfl⟩ := (edgeOf?_eq_some_iff hx).1 he
  obtain ⟨caller', hcaller', hbare⟩ := h.exists_method hcaller
  obtain ⟨hid, -, -, hsignature⟩ := Method.bare_eq_iff.1 hbare
  obtain ⟨target', hnames', hsteady⟩ := hnames.grow h hy
  refine ⟨(caller'.id, target'.id), ?_, hid, fun hfree => ?_⟩
  · exact (edgeOf?_eq_some_iff hy).2
      ⟨caller', hcaller', hsignature.trans hfrom, target', hnames', rfl⟩
  · rw [hid, (Method.bare_eq_iff.1 (hsteady hfree)).1]

/-- **Callees are steady.** Let a callee resolve to a method. After any operations without a clear it
still resolves, and to the same method as long as none is stored with exactly its text. Once there is
one, the callee resolves to that method, in that index and in every later one. So a call that was once
recorded is never skipped when its batch is written again, nor when another batch makes it, however
much later: it is recorded from the same caller, and along the same edge unless a method with exactly
the text of its callee is stored. -/
theorem callee_steady (hx : Reachable x) :
    (∀ callee m, x.resolveCallee callee = some m → ∀ y, Later x y →
      ∃ k, y.resolveCallee callee = some k ∧
        (callee ∉ signatures y.methods → k.bare = m.bare) ∧
        ∀ n ∈ y.methods, n.signature = callee → k = n ∧ ∀ z, Later y z →
          ∃ n', z.resolveCallee callee = some n' ∧ n'.bare = n.bare) ∧
    ∀ refuse b y r, x.ingest refuse b = (y, .ok r) →
      ∀ c ∈ b.calls, callItem c ∉ r.skipped.map Skipped.item →
        ∃ e, Recorded x b y r c e ∧ ∀ w, Later y w →
          ∀ refuse' b' z r', w.ingest refuse' b' = (z, .ok r') → c ∈ b'.calls →
            ∃ e', Recorded w b' z r' c e' ∧ e'.1 = e.1 ∧
              (c.callee ∉ signatures z.methods → e' = e) := by
  have hwx := hx.wellFormed
  constructor
  · intro callee m hm y hy
    have hwy := hy.wellFormed hx
    have hnames := names_of_resolveCallee hm
    obtain ⟨k, hk, hsteady⟩ := hnames.grow (hy.grows hx) hwy
    refine ⟨k, (resolveCallee_eq_some_iff hwy).2 hk, hsteady, ?_⟩
    rintro n hn rfl
    have hexact := names_signature hn (isCandidate_iff.1 hnames.candidate).1
    refine ⟨hk.unique hwy hexact, ?_⟩
    intro z hz
    have hy' : Reachable y := hy.reachable hx
    obtain ⟨n', hn', hbare⟩ := hexact.grow_exact (hz.grows hy')
    exact ⟨n', (resolveCallee_eq_some_iff (hz.wellFormed hy')).2 hn', hbare⟩
  · intro refuse b y r h c hc hkept
    obtain ⟨hb, hw⟩ := written_of_ingest hwx h
    have hwy := hw.wellFormed hwx hb
    have haccounts := hw.accounts hwx hwy
    rw [haccounts.callItem_mem_iff hc] at hkept
    obtain ⟨e, he⟩ := Option.ne_none_iff_exists'.1 hkept
    refine ⟨e, haccounts.recorded hc he, ?_⟩
    intro w hyw refuse' b' z r' h' hc'
    have hy : Reachable y := by
      have hstep : Reachable (x.ingest refuse b).1 := hx.apply refuse (.ingest b)
      rwa [h] at hstep
    have hww := hyw.wellFormed hy
    obtain ⟨hb', hw'⟩ := written_of_ingest hww h'
    have hwz := hw'.wellFormed hww hb'
    obtain ⟨e', he', hfrom, hsteady⟩ := ((hyw.grows hy).trans hw'.grows).edgeOf? hwy hwz he
    exact ⟨e', (hw'.accounts hww hwz).recorded hc' he', hfrom, hsteady⟩

/-- Another document gives the callee's method a new text and adds an overload, and a batch that would
add the exact method fails. Until that batch is written the callee keeps its first candidate. -/
theorem callee_steady_overloaded :
    let b : Batch := ⟨"demo", "A.java", ["A"],
      [⟨"void A.f()", "", none, none⟩, ⟨"void A.g(int)", "one", none, none⟩],
      [⟨"void A.f()", "void A.g"⟩]⟩
    let more : Batch := ⟨"other", "B.java", ["A"],
      [⟨"void A.g()", "", none, none⟩, ⟨"void A.g(int)", "two", none, none⟩], []⟩
    let exact : Batch := ⟨"demo", "C.java", ["A"], [⟨"void A.g", "", none, none⟩], []⟩
    let call : CallInput := ⟨"void A.f()", "void A.g"⟩
    let first : Method := ⟨2, 1, "g(int)", "void A.g(int)", "one", none, none⟩
    let last : Method := ⟨4, 1, "g", "void A.g", "", none, none⟩
    let x := (Index.empty.ingest .never b).1
    let y := x.run [(.never, .ingest more), (.always, .ingest exact)]
    let z := x.run [(.never, .ingest more), (.always, .ingest exact), (.never, .ingest exact)]
    let y' := (y.ingest .never b).1
    let z' := (z.ingest .never b).1
    let again : Report := ⟨1, 1, 1, 0, 2, 1, []⟩
    x.resolveCallee "void A.g" = some first ∧
      (∃ k, y.resolveCallee "void A.g" = some k ∧ k.bare = first.bare) ∧
      z.resolveCallee "void A.g" = some last ∧
      (∃ k, z'.resolveCallee "void A.g" = some k ∧ k.bare = last.bare) ∧
      Recorded y b y' again call (1, 2) ∧ Recorded z b z' again call (1, 4) := by
  intro b more exact call first last x y z y' z' again
  have hx : Reachable x := Reachable.empty.apply .never (.ingest b)
  have hy : Later x y := ⟨_, by simp, rfl⟩
  have hz : Later x z := ⟨_, by simp, rfl⟩
  have hz' : Later z z' := ⟨[(.never, .ingest b)], by simp, rfl⟩
  have hfirst : x.resolveCallee "void A.g" = some first := by decide +kernel
  obtain ⟨hresolved, -⟩ := callee_steady hx
  obtain ⟨k, hk, hsteady, -⟩ := hresolved _ _ hfirst y hy
  obtain ⟨k', hk', -, hexact⟩ := hresolved _ _ hfirst z hz
  obtain ⟨rfl, hlater⟩ := hexact last (by decide +kernel) rfl
  -- the call is recorded by the batch that the empty index gets, and then by each of the later ones
  obtain ⟨-, hcalls⟩ := callee_steady Reachable.empty
  have h : Index.empty.ingest .never b = (x, .ok ⟨1, 1, 1, 2, 0, 1, []⟩) := by decide +kernel
  have hafterY : y.ingest .never b = (y', .ok again) := by decide +kernel
  have hafterZ : z.ingest .never b = (z', .ok again) := by decide +kernel
  have hcall : call ∈ b.calls := List.mem_cons_self
  obtain ⟨e, -, hagain⟩ := hcalls _ _ _ _ h call hcall (by decide)
  obtain ⟨e', hrecorded, -, -⟩ := hagain y hy _ _ _ _ hafterY hcall
  obtain ⟨e'', hrecorded', -, -⟩ := hagain z hz _ _ _ _ hafterZ hcall
  have he' : y'.edgeOf? call = some (1, 2) := by decide +kernel
  have he'' : z'.edgeOf? call = some (1, 4) := by decide +kernel
  obtain rfl := Option.some.inj (hrecorded.names.symm.trans he')
  obtain rfl := Option.some.inj (hrecorded'.names.symm.trans he'')
  exact ⟨hfirst, ⟨k, hk, hsteady (by decide +kernel)⟩, hk', hlater z' hz', hrecorded, hrecorded'⟩

end CallIndex.Index
