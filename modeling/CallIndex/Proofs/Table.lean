import CallIndex.Index.Basic
import CallIndex.Text.Blank
import Mathlib.Data.List.Induction
import Mathlib.Data.List.Nodup

/-!
# Tables

A table is a list of rows with the ids 1, 2, 3, …. The rows of most tables also have a text of their
own, the key: a key is not blank, and no two rows share one.

* `firstIds`: the ids of a table with a given number of rows. The next id is one more than that
  number (`nextId_firstIds`).
* `KeyedTable`: a table with keys. A new key can be added (`KeyedTable.append`), and every other
  change of a row must keep its id and its key (`KeyedTable.map`). Its rows are in ascending order of
  ids (`KeyedTable.ascending`), and an id or a key finds its row (`KeyedTable.find?_id`,
  `KeyedTable.find?_key`).
* `Keying.intern`: look keys up and add a row for each one that is missing. The keys are then those
  of the table and the new ones, each at its first place (`keys_intern`).
-/

namespace CallIndex

/-- The ids of a table with `n` rows. -/
def firstIds (n : Nat) : List RowId := (List.range n).map fun (i : Nat) => (i : RowId) + 1

theorem firstIds_succ (n : Nat) : firstIds (n + 1) = firstIds n ++ [(n : RowId) + 1] := by
  simp [firstIds, List.range_succ]

@[simp] theorem length_firstIds (n : Nat) : (firstIds n).length = n := by simp [firstIds]

/-- **The next id is one more than the number of rows.** -/
theorem nextId_firstIds (n : Nat) : Index.nextId (firstIds n) = (n : RowId) + 1 := by
  unfold Index.nextId
  -- ids only grow, so the largest one is the last
  have hmax : (firstIds n).foldl max 0 = (n : RowId) := by
    induction n with
    | zero => rfl
    | succ n ih =>
      rw [firstIds_succ, List.foldl_append, ih, List.foldl_cons, List.foldl_nil]
      show max (n : Int) ((n : Int) + 1) = (n : Int) + 1
      omega
  rw [hmax]

theorem pairwise_firstIds (n : Nat) : (firstIds n).Pairwise (· < ·) := by
  unfold firstIds
  rw [List.pairwise_map]
  refine List.pairwise_lt_range.imp ?_
  intro i j h
  show (i : Int) + 1 < (j : Int) + 1
  omega

theorem nodup_firstIds (n : Nat) : (firstIds n).Nodup :=
  (pairwise_firstIds n).imp Int.ne_of_lt

/-- Rows in ascending order are told by their members alone. -/
theorem eq_of_ascending {α : Type} {id : α → RowId} {l l' : List α}
    (h : l.Pairwise fun r s => id r < id s) (h' : l'.Pairwise fun r s => id r < id s)
    (hmem : ∀ r, r ∈ l ↔ r ∈ l') : l = l' := by
  have hnodup : ∀ {l : List α}, l.Pairwise (fun r s => id r < id s) → l.Nodup := by
    intro l h
    refine h.imp ?_
    rintro r s hlt rfl
    exact Int.lt_irrefl _ hlt
  have hperm : l.Perm l' := (List.perm_ext_iff_of_nodup (hnodup h) (hnodup h')).2 hmem
  refine hperm.eq_of_pairwise ?_ h h'
  intro r s _ _ hrs hsr
  exact absurd hrs (Int.lt_asymm hsr)

/-- Rows with the ids of rows in ascending order are in ascending order. -/
theorem ascending_of_map_eq {α β : Type} {f : α → RowId} {g : β → RowId} {as : List α} {bs : List β}
    (h : bs.map g = as.map f) (has : as.Pairwise fun r s => f r < f s) :
    bs.Pairwise fun r s => g r < g s := by
  rw [← List.pairwise_map (R := (· < ·)), h, List.pairwise_map]
  exact has

/-- A search finds the only row that it looks for. -/
theorem find?_eq_some_of_unique {α : Type} {rows : List α} {p : α → Bool} {r : α} (hr : r ∈ rows)
    (hp : p r = true) (hunique : ∀ s ∈ rows, p s = true → s = r) : rows.find? p = some r := by
  cases h : rows.find? p with
  | none => exact absurd hp (List.find?_eq_none.1 h r hr)
  | some s => rw [hunique s (List.mem_of_find?_eq_some h) (List.find?_some h)]

section Distinct

variable {β : Type} [BEq β] [LawfulBEq β]

/-- Each value at its first place: a value at the end counts if it is new. -/
theorem eraseDups_concat (l : List β) (a : β) :
    (l ++ [a]).eraseDups = if a ∈ l then l.eraseDups else l.eraseDups ++ [a] := by
  rw [List.eraseDups_append]
  by_cases h : a ∈ l <;> simp [List.removeAll, List.eraseDups_cons, h]

theorem nodup_eraseDups (l : List β) : l.eraseDups.Nodup := by
  induction l using List.reverseRecOn with
  | nil => exact List.nodup_nil
  | append_singleton l a ih =>
    rw [eraseDups_concat]
    split
    · exact ih
    · rename_i h
      exact List.Nodup.append ih (List.nodup_singleton a) (by simpa using h)

theorem eraseDups_of_nodup {l : List β} (h : l.Nodup) : l.eraseDups = l := by
  induction l using List.reverseRecOn with
  | nil => rfl
  | append_singleton l a ih =>
    have hd := List.nodup_append.1 h
    rw [eraseDups_concat, if_neg (fun ha => hd.2.2 a ha a (by simp) rfl), ih hd.1]

/-- Erasing repetitions early changes nothing. -/
theorem eraseDups_append_left (l m : List β) :
    (l.eraseDups ++ m).eraseDups = (l ++ m).eraseDups := by
  induction m using List.reverseRecOn with
  | nil => simp [eraseDups_of_nodup (nodup_eraseDups l)]
  | append_singleton m a ih =>
    rw [← List.append_assoc, ← List.append_assoc, eraseDups_concat, eraseDups_concat, ih]
    simp

/-- Different values that stay different may be changed before or after repetitions are erased. -/
theorem eraseDups_map {γ : Type} [BEq γ] [LawfulBEq γ] {f : β → γ} {l : List β}
    (hf : ∀ a ∈ l, ∀ b ∈ l, f a = f b → a = b) : (l.map f).eraseDups = l.eraseDups.map f := by
  induction l using List.reverseRecOn with
  | nil => rfl
  | append_singleton l a ih =>
    have hmem : f a ∈ l.map f ↔ a ∈ l := by
      constructor
      · intro h
        obtain ⟨b, hb, hba⟩ := List.mem_map.1 h
        rwa [← hf b (List.mem_append_left _ hb) a (by simp) hba]
      · exact List.mem_map_of_mem
    have ih := ih fun b hb c hc =>
      hf b (List.mem_append_left _ hb) c (List.mem_append_left _ hc)
    rw [List.map_append, List.map_singleton, eraseDups_concat, eraseDups_concat, ih]
    by_cases h : a ∈ l
    · rw [if_pos h, if_pos (hmem.2 h)]
    · rw [if_neg h, if_neg (mt hmem.1 h), List.map_append, List.map_singleton]

end Distinct

section Keyed

variable {α : Type} {id : α → RowId} {key : α → String} {rows : List α}

/-- A table with keys: the ids count up from 1, the keys are distinct, and none is blank. -/
structure KeyedTable (id : α → RowId) (key : α → String) (rows : List α) : Prop where
  ids : rows.map id = firstIds rows.length
  distinct : (rows.map key).Nodup
  shown : ∀ r ∈ rows, isBlank (key r) = false

namespace KeyedTable

theorem nil : KeyedTable id key [] := ⟨rfl, List.nodup_nil, by simp⟩

theorem nextId (h : KeyedTable id key rows) :
    Index.nextId (rows.map id) = (rows.length : RowId) + 1 := by
  rw [h.ids, nextId_firstIds]

theorem eq_of_id (h : KeyedTable id key rows) {r s : α} (hr : r ∈ rows) (hs : s ∈ rows)
    (e : id r = id s) : r = s := by
  have hd : (rows.map id).Nodup := h.ids ▸ nodup_firstIds _
  exact List.inj_on_of_nodup_map hd hr hs e

theorem eq_of_key (h : KeyedTable id key rows) {r s : α} (hr : r ∈ rows) (hs : s ∈ rows)
    (e : key r = key s) : r = s :=
  List.inj_on_of_nodup_map h.distinct hr hs e

theorem find?_id (h : KeyedTable id key rows) {r : α} (hr : r ∈ rows) :
    rows.find? (fun s => id s = id r) = some r :=
  find?_eq_some_of_unique hr (by simp) fun _ hs he => h.eq_of_id hs hr (by simpa using he)

theorem find?_key (h : KeyedTable id key rows) {r : α} (hr : r ∈ rows) :
    rows.find? (fun s => key s = key r) = some r :=
  find?_eq_some_of_unique hr (by simp) fun _ hs he => h.eq_of_key hs hr (by simpa using he)

theorem ascending (h : KeyedTable id key rows) : rows.Pairwise fun r s => id r < id s := by
  have hids := pairwise_firstIds rows.length
  rw [← h.ids] at hids
  exact List.pairwise_map.1 hids

/-- A new key under the next id keeps a table keyed. -/
theorem append (h : KeyedTable id key rows) {r : α} (hid : id r = Index.nextId (rows.map id))
    (hkey : key r ∉ rows.map key) (hshown : isBlank (key r) = false) :
    KeyedTable id key (rows ++ [r]) := by
  refine ⟨?_, ?_, ?_⟩
  · rw [List.map_append, h.ids, List.length_append, List.length_singleton, firstIds_succ,
      List.map_singleton, hid, h.nextId]
  · rw [List.map_append]
    exact List.Nodup.append h.distinct (List.nodup_singleton _) (by simpa using hkey)
  · intro s hs
    rcases List.mem_append.1 hs with hs | hs
    · exact h.shown s hs
    · rw [List.mem_singleton.1 hs]; exact hshown

/-- A change of rows that keeps ids and keys keeps a table keyed. -/
theorem map (h : KeyedTable id key rows) {f : α → α} (hid : ∀ r, id (f r) = id r)
    (hkey : ∀ r, key (f r) = key r) : KeyedTable id key (rows.map f) := by
  have hids : (rows.map f).map id = rows.map id := by simp [hid]
  have hkeys : (rows.map f).map key = rows.map key := by simp [hkey]
  refine ⟨?_, ?_, ?_⟩
  · rw [hids, h.ids, List.length_map]
  · rw [hkeys]; exact h.distinct
  · intro s hs
    obtain ⟨r, hr, rfl⟩ := List.mem_map.1 hs
    rw [hkey]; exact h.shown r hr

end KeyedTable

/-- A key that a search does not find is not there. -/
theorem find?_key_none {k : String} (h : rows.find? (fun s => key s = k) = none) :
    k ∉ rows.map key := by
  intro hk
  obtain ⟨r, hr, rfl⟩ := List.mem_map.1 hk
  have := List.find?_eq_none.1 h r hr
  simp at this

end Keyed

/-- How a table makes a row of a key. -/
structure Keying (α : Type) where
  id : α → RowId
  key : α → String
  row : RowId → String → α
  id_row : ∀ i k, id (row i k) = i
  key_row : ∀ i k, key (row i k) = k

namespace Keying

variable {α : Type} (K : Keying α)

/-- A table after one key is looked up, and a row added for it if it is missing. -/
def internOne (rows : List α) (k : String) : List α :=
  if k ∈ rows.map K.key then rows else rows ++ [K.row (Index.nextId (rows.map K.id)) k]

/-- A table after some keys are looked up, one after the other. -/
def intern (ks : List String) (rows : List α) : List α := ks.foldl K.internOne rows

variable {K} {rows : List α}

theorem internOne_ok (h : KeyedTable K.id K.key rows) {k : String} (hk : isBlank k = false) :
    KeyedTable K.id K.key (K.internOne rows k) := by
  unfold internOne
  split
  · exact h
  · rename_i hnew
    refine h.append (K.id_row _ _) ?_ ?_
    · rwa [K.key_row]
    · rwa [K.key_row]

/-- **Looking keys up keeps a table keyed.** -/
theorem intern_ok {ks : List String} (h : KeyedTable K.id K.key rows)
    (hks : ∀ k ∈ ks, isBlank k = false) : KeyedTable K.id K.key (K.intern ks rows) := by
  induction ks generalizing rows with
  | nil => exact h
  | cons k ks ih =>
    exact ih (internOne_ok h (hks k List.mem_cons_self))
      (fun k' hk' => hks k' (List.mem_cons_of_mem _ hk'))

theorem keys_internOne (hd : (rows.map K.key).Nodup) (k : String) :
    (K.internOne rows k).map K.key = (rows.map K.key ++ [k]).eraseDups := by
  rw [eraseDups_concat, eraseDups_of_nodup hd]
  unfold internOne
  split
  · rfl
  · simp [K.key_row]

/-- **The keys of a table after a look-up**: its own and the new ones, each at its first place. -/
theorem keys_intern (hd : (rows.map K.key).Nodup) (ks : List String) :
    (K.intern ks rows).map K.key = (rows.map K.key ++ ks).eraseDups := by
  induction ks generalizing rows with
  | nil => simpa [intern] using (eraseDups_of_nodup hd).symm
  | cons k ks ih =>
    have hk := keys_internOne hd k
    have hd' : ((K.internOne rows k).map K.key).Nodup := by rw [hk]; exact nodup_eraseDups _
    have hstep := ih hd'
    rw [hk, eraseDups_append_left, List.append_assoc] at hstep
    exact hstep

theorem isPrefix_intern (ks : List String) (rows : List α) : rows <+: K.intern ks rows := by
  induction ks generalizing rows with
  | nil => exact List.prefix_rfl
  | cons k ks ih =>
    refine List.IsPrefix.trans ?_ (ih (K.internOne rows k))
    unfold internOne
    split
    · exact List.prefix_rfl
    · exact List.prefix_append _ _

/-- A row after a look-up is an old one, or a new one for one of the keys. -/
theorem mem_intern {ks : List String} {r : α} (h : r ∈ K.intern ks rows) :
    r ∈ rows ∨ (K.key r ∈ ks ∧ K.key r ∉ rows.map K.key ∧ ∃ i, r = K.row i (K.key r)) := by
  induction ks generalizing rows with
  | nil => exact Or.inl h
  | cons k ks ih =>
    -- a key that is missing after the first look-up was missing before it
    have hsub : ∀ k', k' ∉ (K.internOne rows k).map K.key → k' ∉ rows.map K.key := by
      intro k' hn hm
      have hp : rows <+: K.internOne rows k := isPrefix_intern [k] rows
      exact hn ((hp.map K.key).subset hm)
    rcases ih h with h | ⟨hks, hnew, hrow⟩
    · unfold internOne at h
      split at h
      · exact Or.inl h
      · rename_i hk
        rcases List.mem_append.1 h with h | h
        · exact Or.inl h
        · rw [List.mem_singleton.1 h, K.key_row]
          exact Or.inr ⟨List.mem_cons_self, hk, _, rfl⟩
    · exact Or.inr ⟨List.mem_cons_of_mem _ hks, hsub _ hnew, hrow⟩

/-- Keys that are all there change nothing. -/
theorem intern_of_subset {ks : List String} (h : ∀ k ∈ ks, k ∈ rows.map K.key) :
    K.intern ks rows = rows := by
  induction ks with
  | nil => rfl
  | cons k ks ih =>
    have hk : K.internOne rows k = rows := if_pos (h k List.mem_cons_self)
    unfold intern at ih ⊢
    rw [List.foldl_cons, hk]
    exact ih fun k' hk' => h k' (List.mem_cons_of_mem _ hk')

theorem intern_of_mem {k : String} (h : k ∈ rows.map K.key) : K.intern [k] rows = rows := by
  apply intern_of_subset
  intro k' hk'
  rw [List.mem_singleton.1 hk']
  exact h

end Keying

end CallIndex
