import CallIndex.Index.Ingest
import CallIndex.Proofs.Table

/-!
# The table of methods

The methods of a batch are written one after the other into a table that grows under them. Here the
same run is a fold over the table alone, and then a closed form of it.

* `Method.revise`: what some inputs make of a stored method. Only the last input of its signature
  counts (`revise_eq_last`).
* `place`: the class and the name of a new method, or why it is skipped. The answer depends on the
  signature and on the classes of the batch, not on the table.
* `putMethods` and `effects`: the table after a run, and what became of each input.
* `putMethods_closed`: the old rows and the added ones, each with the text of its last input.
* `putMethods_again`, `effects_again`: a second run of the same inputs leaves the table as it is, and
  only updates what the first one wrote.
-/

namespace CallIndex

namespace Method

/-- A method with the text and the lines of an input. -/
def withText (r : Method) (m : MethodInput) : Method :=
  { r with body := m.body, startLine := m.startLine, endLine := m.endLine }

/-- A method after one input: an input of its own signature gives it a new text. -/
def rewrite (m : MethodInput) (r : Method) : Method :=
  if m.signature = r.signature then r.withText m else r

/-- A method after some inputs. -/
def revise (ms : List MethodInput) (r : Method) : Method := ms.foldl (fun r m => r.rewrite m) r

@[simp] theorem rewrite_id (m : MethodInput) (r : Method) : (rewrite m r).id = r.id := by
  unfold rewrite; split <;> rfl

@[simp] theorem rewrite_classId (m : MethodInput) (r : Method) :
    (rewrite m r).classId = r.classId := by
  unfold rewrite; split <;> rfl

@[simp] theorem rewrite_name (m : MethodInput) (r : Method) : (rewrite m r).name = r.name := by
  unfold rewrite; split <;> rfl

@[simp] theorem rewrite_signature (m : MethodInput) (r : Method) :
    (rewrite m r).signature = r.signature := by
  unfold rewrite; split <;> rfl

/-- An input of another signature changes nothing. -/
theorem rewrite_of_ne {m : MethodInput} {r : Method} (h : m.signature ≠ r.signature) :
    rewrite m r = r := if_neg h

theorem revise_cons (m : MethodInput) (ms : List MethodInput) (r : Method) :
    r.revise (m :: ms) = (rewrite m r).revise ms := rfl

/-- What inputs never change: the id, the class, the name and the signature. -/
theorem revise_links (ms : List MethodInput) (r : Method) :
    (r.revise ms).id = r.id ∧ (r.revise ms).classId = r.classId ∧
      (r.revise ms).name = r.name ∧ (r.revise ms).signature = r.signature := by
  induction ms generalizing r with
  | nil => exact ⟨rfl, rfl, rfl, rfl⟩
  | cons m ms ih =>
    obtain ⟨h1, h2, h3, h4⟩ := ih (rewrite m r)
    rw [revise_cons, h1, h2, h3, h4]
    simp

end Method

/-- The last input of a signature. -/
def lastWith (signature : String) (ms : List MethodInput) : Option MethodInput :=
  (ms.filter fun m => m.signature = signature).getLast?

theorem lastWith_append (signature : String) (ms ns : List MethodInput) :
    lastWith signature (ms ++ ns) = (lastWith signature ns).or (lastWith signature ms) := by
  simp [lastWith]

theorem lastWith_concat (signature : String) (ms : List MethodInput) (m : MethodInput) :
    lastWith signature (ms ++ [m]) =
      if m.signature = signature then some m else lastWith signature ms := by
  rw [lastWith_append]
  by_cases h : m.signature = signature <;> simp [lastWith, h]

/-- A signature that occurs has a last input. -/
theorem exists_lastWith {signature : String} {ms : List MethodInput}
    (h : signature ∈ ms.map MethodInput.signature) : ∃ m, lastWith signature ms = some m := by
  obtain ⟨m, hm, rfl⟩ := List.mem_map.1 h
  have hne : (ms.filter fun n => n.signature = m.signature) ≠ [] :=
    List.ne_nil_of_mem (List.mem_filter.2 ⟨hm, by simp⟩)
  exact ⟨_, List.getLast?_eq_some_getLast hne⟩

/-- **The last input wins.** -/
theorem revise_eq_last (ms : List MethodInput) (r : Method) :
    r.revise ms = match lastWith r.signature ms with
      | some m => r.withText m
      | none => r := by
  induction ms using List.reverseRecOn with
  | nil => rfl
  | append_singleton ms m ih =>
    have hstep : r.revise (ms ++ [m]) = (r.revise ms).rewrite m := by
      simp [Method.revise, List.foldl_append]
    rw [hstep, lastWith_concat]
    unfold Method.rewrite
    rw [(Method.revise_links ms r).2.2.2]
    split
    · rw [ih]; cases lastWith r.signature ms <;> rfl
    · exact ih

/-- The same inputs a second time change nothing. -/
theorem revise_revise (ms : List MethodInput) (r : Method) :
    (r.revise ms).revise ms = r.revise ms := by
  rw [revise_eq_last ms (r.revise ms), (Method.revise_links ms r).2.2.2, revise_eq_last ms r]
  cases lastWith r.signature ms <;> rfl

/-- The class and the name of a new method, or why it is skipped. The argument finds the classes
that the batch lists. -/
def place (find : String → Option RowId) (signature : String) : Except Skipped (RowId × String) :=
  match splitSignature signature with
  | none => .error (.noClassPart signature)
  | some parts =>
    match find parts.owner with
    | none => .error (.classNotListed signature parts.owner)
    | some classId => .ok (classId, parts.name)

theorem place_of_none {find : String → Option RowId} {signature : String}
    (h : splitSignature signature = none) :
    place find signature = .error (.noClassPart signature) := by
  unfold place
  rw [h]

theorem place_of_unlisted {find : String → Option RowId} {signature : String}
    {parts : Signature.Parts} (h : splitSignature signature = some parts)
    (hf : find parts.owner = none) :
    place find signature = .error (.classNotListed signature parts.owner) := by
  unfold place
  rw [h]
  dsimp only
  rw [hf]

theorem place_of_listed {find : String → Option RowId} {signature : String}
    {parts : Signature.Parts} {id : RowId} (h : splitSignature signature = some parts)
    (hf : find parts.owner = some id) : place find signature = .ok (id, parts.name) := by
  unfold place
  rw [h]
  dsimp only
  rw [hf]

/-- A row for an input. -/
def MethodInput.row (m : MethodInput) (id classId : RowId) (name : String) : Method :=
  ⟨id, classId, name, m.signature, m.body, m.startLine, m.endLine⟩

/-- The signatures of a table. -/
abbrev signatures (rows : List Method) : List String := rows.map Method.signature

variable (find : String → Option RowId)

/-- The table after one input. -/
def putMethod (rows : List Method) (m : MethodInput) : List Method :=
  if m.signature ∈ signatures rows then rows.map (Method.rewrite m)
  else match place find m.signature with
    | .error _ => rows
    | .ok (classId, name) =>
      rows ++ [m.row (Index.nextId (rows.map Method.id)) classId name]

/-- What becomes of one input. -/
def effectOf (rows : List Method) (m : MethodInput) : Index.MethodEffect :=
  if m.signature ∈ signatures rows then .updated
  else match place find m.signature with
    | .error reason => .skipped reason
    | .ok _ => .inserted

/-- The table after some inputs, one after the other. -/
def putMethods (rows : List Method) (ms : List MethodInput) : List Method :=
  ms.foldl (putMethod find) rows

/-- What becomes of the inputs, each on the table that the ones before it left. -/
def effects : List Method → List MethodInput → List Index.MethodEffect
  | _, [] => []
  | rows, m :: ms => effectOf find rows m :: effects (putMethod find rows m) ms

variable {find} {rows : List Method}

/-- What one input can do to a table: change the text of a row, nothing, or add a row. -/
theorem putMethod_cases (find : String → Option RowId) (rows : List Method) (m : MethodInput) :
    (m.signature ∈ signatures rows ∧ putMethod find rows m = rows.map (Method.rewrite m) ∧
        effectOf find rows m = .updated) ∨
      (m.signature ∉ signatures rows ∧ ∃ reason, place find m.signature = .error reason ∧
        putMethod find rows m = rows ∧ effectOf find rows m = .skipped reason) ∨
      (m.signature ∉ signatures rows ∧ ∃ classId name,
        place find m.signature = .ok (classId, name) ∧
        putMethod find rows m = rows ++ [m.row (Index.nextId (rows.map Method.id)) classId name] ∧
        effectOf find rows m = .inserted) := by
  unfold putMethod effectOf
  by_cases hs : m.signature ∈ signatures rows
  · exact Or.inl ⟨hs, by rw [if_pos hs], by rw [if_pos hs]⟩
  · rw [if_neg hs, if_neg hs]
    cases hp : place find m.signature with
    | error reason => exact Or.inr (Or.inl ⟨hs, reason, rfl, rfl, rfl⟩)
    | ok at_ => exact Or.inr (Or.inr ⟨hs, at_.1, at_.2, rfl, rfl, rfl⟩)

theorem signatures_map_rewrite (m : MethodInput) (rows : List Method) :
    signatures (rows.map (Method.rewrite m)) = signatures rows := by
  simp [signatures]

/-- **Writing methods keeps a table keyed.** -/
theorem putMethods_ok {ms : List MethodInput} (h : KeyedTable Method.id Method.signature rows)
    (hms : ∀ m ∈ ms, isBlank m.signature = false) :
    KeyedTable Method.id Method.signature (putMethods find rows ms) := by
  induction ms generalizing rows with
  | nil => exact h
  | cons m ms ih =>
    apply ih _ (fun n hn => hms n (List.mem_cons_of_mem _ hn))
    rcases putMethod_cases find rows m with ⟨-, hp, -⟩ | ⟨-, -, -, hp, -⟩ | ⟨hs, c, n, -, hp, -⟩ <;>
      rw [hp]
    · exact h.map (by simp) (by simp)
    · exact h
    · exact h.append rfl hs (hms m List.mem_cons_self)

theorem signatures_putMethod (hd : (signatures rows).Nodup) (m : MethodInput) :
    signatures (putMethod find rows m) =
      (signatures rows ++ [m.signature].filter fun s => (place find s).isOk).eraseDups := by
  rcases putMethod_cases find rows m with ⟨hs, hp, -⟩ | ⟨-, r, hr, hp, -⟩ | ⟨hs, c, n, hr, hp, -⟩ <;>
    rw [hp]
  · rw [signatures_map_rewrite]
    cases hok : (place find m.signature).isOk
    · simp [hok, eraseDups_of_nodup hd]
    · simp only [List.filter_cons, hok, if_true, List.filter_nil]
      rw [eraseDups_concat, if_pos hs, eraseDups_of_nodup hd]
  · simp [hr, Except.isOk, Except.toBool, eraseDups_of_nodup hd]
  · have hok : (place find m.signature).isOk = true := by rw [hr]; rfl
    simp only [List.filter_cons, hok, if_true, List.filter_nil]
    rw [eraseDups_concat, if_neg hs, eraseDups_of_nodup hd]
    simp [signatures, MethodInput.row]

/-- **The signatures after a run**: the old ones, then those that have a place, each at its first
place. -/
theorem signatures_putMethods (hd : (signatures rows).Nodup) (ms : List MethodInput) :
    signatures (putMethods find rows ms) =
      (signatures rows ++
        (ms.map MethodInput.signature).filter fun s => (place find s).isOk).eraseDups := by
  induction ms generalizing rows with
  | nil => simpa [putMethods] using (eraseDups_of_nodup hd).symm
  | cons m ms ih =>
    have hm : signatures (putMethod find rows m) = _ := signatures_putMethod hd m
    have hd' : (signatures (putMethod find rows m)).Nodup := by rw [hm]; exact nodup_eraseDups _
    have hstep := ih hd'
    rw [hm, eraseDups_append_left, List.append_assoc, ← List.filter_append] at hstep
    exact hstep

theorem mem_signatures_putMethods (hd : (signatures rows).Nodup) (ms : List MethodInput)
    (s : String) : s ∈ signatures (putMethods find rows ms) ↔
      s ∈ signatures rows ∨ (s ∈ ms.map MethodInput.signature ∧ (place find s).isOk = true) := by
  rw [signatures_putMethods hd, List.mem_eraseDups, List.mem_append, List.mem_filter]

/-- Rows of other signatures do not see an input. -/
theorem map_revise_cons {m : MethodInput} (ms : List MethodInput) {l : List Method}
    (h : ∀ r ∈ l, m.signature ≠ r.signature) :
    l.map (Method.revise (m :: ms)) = l.map (Method.revise ms) := by
  apply List.map_congr_left
  intro r hr
  rw [Method.revise_cons, Method.rewrite_of_ne (h r hr)]

/-- A row that an input makes has the text of that input to begin with. -/
theorem revise_cons_row (m : MethodInput) (ms : List MethodInput) (id classId : RowId)
    (name : String) :
    (m.row id classId name).revise (m :: ms) = (m.row id classId name).revise ms := by
  rw [Method.revise_cons]
  simp [Method.rewrite, Method.withText, MethodInput.row]

/-- **A run in closed form**: the old rows and the added ones, each with the text of its last input.
An added row stands in the place of its signature. -/
theorem putMethods_closed (find : String → Option RowId) (rows : List Method)
    (ms : List MethodInput) :
    ∃ added, putMethods find rows ms = (rows ++ added).map (Method.revise ms) ∧
      ∀ r ∈ added, place find r.signature = .ok (r.classId, r.name) ∧
        r.signature ∉ signatures rows ∧ r.signature ∈ ms.map MethodInput.signature := by
  induction ms generalizing rows with
  | nil =>
    have hid : Method.revise [] = id := rfl
    exact ⟨[], by simp [putMethods, hid], by simp⟩
  | cons m ms ih =>
    obtain ⟨added, hrows, hadd⟩ := ih (putMethod find rows m)
    have hrun : putMethods find rows (m :: ms) =
        (putMethod find rows m ++ added).map (Method.revise ms) := hrows
    have hold : m.signature ∉ signatures rows → ∀ r ∈ rows, m.signature ≠ r.signature :=
      fun hs r hr e => hs (e ▸ List.mem_map_of_mem hr)
    rcases putMethod_cases find rows m with ⟨hs, hp, -⟩ | ⟨hs, e, he, hp, -⟩ | ⟨hs, c, n, ho, hp, -⟩ <;>
      rw [hp] at hrun hadd
    · -- stored: an old row is rewritten, and no added row has its signature
      rw [signatures_map_rewrite] at hadd
      have hne : ∀ r ∈ added, m.signature ≠ r.signature :=
        fun r hr e => (hadd r hr).2.1 (e ▸ hs)
      refine ⟨added, ?_, fun r hr => ⟨(hadd r hr).1, (hadd r hr).2.1,
        List.mem_cons_of_mem _ (hadd r hr).2.2⟩⟩
      rw [hrun, List.map_append, List.map_append, map_revise_cons ms hne, List.map_map]
      rfl
    · -- skipped: the signature has no place, so it is not added later either
      have hne : ∀ r ∈ added, m.signature ≠ r.signature := by
        intro r hr e
        have hok := (hadd r hr).1
        rw [← e, he] at hok
        cases hok
      refine ⟨added, ?_, fun r hr => ⟨(hadd r hr).1, (hadd r hr).2.1,
        List.mem_cons_of_mem _ (hadd r hr).2.2⟩⟩
      rw [hrun, List.map_append, List.map_append, map_revise_cons ms hne,
        map_revise_cons ms (hold hs)]
    · -- added: the new row stands before what the other inputs add
      have hsig : signatures (rows ++ [m.row (Index.nextId (rows.map Method.id)) c n]) =
          signatures rows ++ [m.signature] := by
        simp [signatures, MethodInput.row]
      rw [hsig] at hadd
      have hne : ∀ r ∈ added, m.signature ≠ r.signature :=
        fun r hr e => (hadd r hr).2.1 (e ▸ List.mem_append_right _ List.mem_cons_self)
      refine ⟨m.row (Index.nextId (rows.map Method.id)) c n :: added, ?_, ?_⟩
      · rw [hrun, List.append_assoc, List.map_append, List.map_append, List.map_append,
          List.map_cons, List.map_cons, revise_cons_row, map_revise_cons ms hne,
          map_revise_cons ms (hold hs)]
        rfl
      · intro r hr
        rcases List.mem_cons.1 hr with rfl | hr
        · exact ⟨ho, hs, List.mem_cons_self⟩
        · exact ⟨(hadd r hr).1, fun h => (hadd r hr).2.1 (List.mem_append_left _ h),
            List.mem_cons_of_mem _ (hadd r hr).2.2⟩

/-- A row after a run has the links of an old row, or it was made by an input and stands in the place
of its signature. In both cases it has the text of its last input. -/
theorem mem_putMethods {ms : List MethodInput} {r : Method} (h : r ∈ putMethods find rows ms) :
    ((∃ s ∈ rows, r = s.revise ms) ∨
      (r.signature ∈ ms.map MethodInput.signature ∧
        place find r.signature = .ok (r.classId, r.name))) ∧
      r.revise ms = r := by
  obtain ⟨added, hrows, hadd⟩ := putMethods_closed find rows ms
  rw [hrows] at h
  obtain ⟨s, hs, rfl⟩ := List.mem_map.1 h
  refine ⟨?_, revise_revise ms s⟩
  obtain ⟨-, hc, hn, hsig⟩ := Method.revise_links ms s
  rcases List.mem_append.1 hs with hs | hs
  · exact Or.inl ⟨s, hs, rfl⟩
  · rw [hsig, hc, hn]
    exact Or.inr ⟨(hadd s hs).2.2, (hadd s hs).1⟩

/-! ## A second run -/

/-- **A second run of the same inputs leaves the table as it is.** -/
theorem putMethods_again (hd : (signatures rows).Nodup) (ms : List MethodInput) :
    putMethods find (putMethods find rows ms) ms = putMethods find rows ms := by
  obtain ⟨added, hrows, hadd⟩ := putMethods_closed find (putMethods find rows ms) ms
  -- every signature with a place is there already
  have hnil : added = [] := by
    rw [List.eq_nil_iff_forall_not_mem]
    intro r hr
    obtain ⟨hok, hnew, hin⟩ := hadd r hr
    exact hnew ((mem_signatures_putMethods hd ms r.signature).2 (Or.inr ⟨hin, by rw [hok]; rfl⟩))
  rw [hrows, hnil, List.append_nil]
  calc (putMethods find rows ms).map (Method.revise ms)
      = (putMethods find rows ms).map id := List.map_congr_left fun r hr => (mem_putMethods hr).2
    _ = putMethods find rows ms := List.map_id _

/-- What a second run makes of an input: what was inserted is updated now. -/
def Index.MethodEffect.again : Index.MethodEffect → Index.MethodEffect
  | .inserted => .updated
  | e => e

/-- What becomes of an input hangs on whether its signature is stored. -/
theorem effectOf_congr {rows' : List Method} {m : MethodInput}
    (h : m.signature ∈ signatures rows ↔ m.signature ∈ signatures rows') :
    effectOf find rows m = effectOf find rows' m := by
  unfold effectOf
  simp only [h]

/-- On a table that holds every signature with a place, all inputs see the same signatures. -/
theorem effects_settled {ms : List MethodInput} (hd : (signatures rows).Nodup)
    (h : ∀ m ∈ ms, (place find m.signature).isOk = true → m.signature ∈ signatures rows) :
    effects find rows ms = ms.map (effectOf find rows) := by
  induction ms generalizing rows with
  | nil => rfl
  | cons m ms ih =>
    have hsame : signatures (putMethod find rows m) = signatures rows := by
      rw [signatures_putMethod hd]
      cases hok : (place find m.signature).isOk
      · simp [hok, eraseDups_of_nodup hd]
      · simp only [List.filter_cons, hok, if_true, List.filter_nil]
        rw [eraseDups_concat, if_pos (h m List.mem_cons_self hok), eraseDups_of_nodup hd]
    rw [effects, List.map_cons, ih (by rw [hsame]; exact hd)
      (fun n hn hok => by rw [hsame]; exact h n (List.mem_cons_of_mem _ hn) hok)]
    congr 1
    apply List.map_congr_left
    intro n hn
    exact effectOf_congr (by rw [hsame])

/-- The first run, told by the table at its end. -/
theorem effects_map_again {rows' : List Method} {ms : List MethodInput}
    (hd : (signatures rows).Nodup) (hsub : ∀ s ∈ signatures rows, s ∈ signatures rows')
    (hin : ∀ m ∈ ms, (place find m.signature).isOk = true → m.signature ∈ signatures rows')
    (hout : ∀ m ∈ ms, (place find m.signature).isOk = false →
      m.signature ∈ signatures rows' → m.signature ∈ signatures rows) :
    (effects find rows ms).map Index.MethodEffect.again = ms.map (effectOf find rows') := by
  induction ms generalizing rows with
  | nil => rfl
  | cons m ms ih =>
    have hmem : ∀ s, s ∈ signatures (putMethod find rows m) ↔ s ∈ signatures rows ∨
        (s ∈ [m].map MethodInput.signature ∧ (place find s).isOk = true) :=
      mem_signatures_putMethods hd [m]
    have hd' : (signatures (putMethod find rows m)).Nodup := by
      rw [signatures_putMethod hd]; exact nodup_eraseDups _
    rw [effects, List.map_cons, List.map_cons]
    congr 1
    · unfold effectOf
      by_cases hs : m.signature ∈ signatures rows
      · rw [if_pos hs, if_pos (hsub _ hs)]; rfl
      · rw [if_neg hs]
        cases hp : place find m.signature with
        | error reason =>
          rw [if_neg fun h => hs (hout m List.mem_cons_self (by rw [hp]; rfl) h)]; rfl
        | ok at_ => rw [if_pos (hin m List.mem_cons_self (by rw [hp]; rfl))]; rfl
    · -- one input adds at most its own signature, and only one that has a place
      apply ih hd' _ (fun n hn => hin n (List.mem_cons_of_mem _ hn))
      · intro n hn hok hn'
        exact (hmem _).2 (Or.inl (hout n (List.mem_cons_of_mem _ hn) hok hn'))
      · intro s hs
        rcases (hmem s).1 hs with hs | ⟨hs, hok⟩
        · exact hsub s hs
        · have e : s = m.signature := by simpa using hs
          rw [e] at hok ⊢
          exact hin m List.mem_cons_self hok

/-- **A second run of the same inputs** skips what the first one skipped, for the same reason, and
updates all else. -/
theorem effects_again (hd : (signatures rows).Nodup) (ms : List MethodInput) :
    effects find (putMethods find rows ms) ms =
      (effects find rows ms).map Index.MethodEffect.again := by
  have hmem : ∀ s, s ∈ signatures (putMethods find rows ms) ↔ _ :=
    mem_signatures_putMethods hd ms
  have hd' : (signatures (putMethods find rows ms)).Nodup := by
    rw [signatures_putMethods hd]; exact nodup_eraseDups _
  have hin : ∀ m ∈ ms, (place find m.signature).isOk = true →
      m.signature ∈ signatures (putMethods find rows ms) :=
    fun m hm hok => (hmem _).2 (Or.inr ⟨List.mem_map_of_mem hm, hok⟩)
  rw [effects_settled hd' hin]
  symm
  apply effects_map_again hd (fun s hs => (hmem s).2 (Or.inl hs)) hin
  intro m hm hok hs
  rcases (hmem _).1 hs with h | ⟨-, h⟩
  · exact h
  · rw [hok] at h; cases h

end CallIndex
