import CallIndex.Proofs.Invariant
import CallIndex.Proofs.Replies

/-!
# A clear is a full reset

A clear deletes the rows of children before those of their parents. So no row is ever referred to when it
is deleted, and nothing of the old rows is left that a later call could show.

* `Table.level`: how far a table is below the projects. Only rows of deeper tables refer to a row.
* `deletions_descend`, `mem_performAll_delete`: a clear goes up from level to level, and what is left of
  a table on the way are the rows that it has not come to.
* `isReferred_of_deleted`: **no row is referred to when its turn comes**.
* `Index.Call`, `Index.session`: calls of the library, and what a sequence of them returns.
* `Index.clear_resets`: a clear leaves no row, and what is called after it returns what it would return
  on a new index.
-/

namespace CallIndex

/-- How many references lead from a row of the table up to a project. -/
def Table.level : Table → Nat
  | projects => 0
  | documents => 1
  | classes => 2
  | methods => 3
  | methodCalls => 4

namespace Index

variable {refuse : Refusal} {x : Index} {row r : Row} {t : Table}

/-! ## The order of the deletes -/

theorem table_of_mem_rowsOf (h : row ∈ x.rowsOf t) : row.table = t := by
  cases t <;> obtain ⟨r, -, rfl⟩ := List.mem_map.1 h <;> rfl

theorem mem_deletions : .delete row ∈ x.deletions ↔ row ∈ x.rowsOf row.table := by
  have hin : .delete row ∈ x.deletions ↔ ∃ t ∈ Table.all.reverse, row ∈ x.rowsOf t := by
    simp [deletions]
  rw [hin]
  constructor
  · rintro ⟨t, -, ht⟩
    rwa [table_of_mem_rowsOf ht]
  · intro h
    have hall : ∀ t, t ∈ Table.all.reverse := by
      intro t
      cases t <;> decide
    exact ⟨row.table, hall _, h⟩

/-- **A clear goes from the deepest level upwards.** -/
theorem deletions_descend (x : Index) :
    x.deletions.Pairwise fun v w => w.row.table.level ≤ v.row.table.level := by
  unfold deletions
  rw [List.pairwise_map, List.pairwise_flatMap]
  constructor
  · -- the rows of one table have one level
    intro t _
    refine List.pairwise_of_forall_mem_list fun a ha b hb => ?_
    rw [Write.row, Write.row, table_of_mem_rowsOf ha, table_of_mem_rowsOf hb]
  · have htables : Table.all.reverse.Pairwise fun s t => t.level ≤ s.level := by decide
    refine htables.imp ?_
    intro s t hst a ha b hb
    rw [Write.row, Write.row, table_of_mem_rowsOf ha, table_of_mem_rowsOf hb]
    exact hst

/-! ## What is left on the way -/

/-- A delete takes a row out of its table, and no other table changes. -/
theorem mem_perform_delete (h : r ∈ (x.perform (.delete row)).rowsOf t) :
    r ∈ x.rowsOf t ∧ r ≠ row := by
  have hr := table_of_mem_rowsOf h
  have hedit {α : Type} {id : α → RowId} {a b : α} {rows : List α}
      (hb : b ∈ WriteEvent.delete.edit id a rows) : b ∈ rows ∧ id b ≠ id a := by
    simpa [WriteEvent.edit] using hb
  by_cases htable : row.table = t
  · -- the row that is left has another id than the deleted one
    subst htable
    cases row <;> obtain ⟨b, hb, rfl⟩ := List.mem_map.1 h <;> obtain ⟨hmem, hid⟩ := hedit hb
    all_goals exact ⟨List.mem_map_of_mem hmem, by rintro ⟨⟩; exact hid rfl⟩
  · have hne : r ≠ row := fun e => htable (e ▸ hr)
    refine ⟨?_, hne⟩
    cases t <;> cases row <;> first | exact absurd rfl htable | exact h

/-- **Deletes leave the rows that they have not come to.** -/
theorem mem_performAll_delete {ws : List Write} (hws : ∀ w ∈ ws, ∃ row, w = .delete row)
    (h : r ∈ (x.performAll ws).rowsOf t) : r ∈ x.rowsOf t ∧ .delete r ∉ ws := by
  induction ws generalizing x with
  | nil => exact ⟨h, List.not_mem_nil⟩
  | cons w ws ih =>
    obtain ⟨row, rfl⟩ := hws w List.mem_cons_self
    obtain ⟨hmem, hnot⟩ := ih (fun w hw => hws w (List.mem_cons_of_mem _ hw)) h
    obtain ⟨hx, hne⟩ := mem_perform_delete hmem
    refine ⟨hx, ?_⟩
    intro hin
    rcases List.mem_cons.1 hin with he | hin
    · cases he
      exact hne rfl
    · exact hnot hin

/-- Only a row of a deeper table refers to a row. -/
theorem exists_deeper (h : x.isReferred row = true) :
    ∃ child, child ∈ x.rowsOf child.table ∧ row.table.level < child.table.level := by
  have hany {α : Type} (wrap : α → Row) {rows : List α} {p : α → Bool} (ha : rows.any p = true)
      (hrows : ∀ a ∈ rows, wrap a ∈ x.rowsOf (wrap a).table)
      (hlevel : ∀ a, row.table.level < (wrap a).table.level) :
      ∃ child, child ∈ x.rowsOf child.table ∧ row.table.level < child.table.level := by
    obtain ⟨a, ha, -⟩ := List.any_eq_true.1 ha
    exact ⟨wrap a, hrows a ha, hlevel a⟩
  cases row with
  | ofProject p =>
    exact hany .ofDocument h (fun _ hd => List.mem_map_of_mem hd) fun _ => Nat.lt_succ_self 0
  | ofDocument d =>
    exact hany .ofClass h (fun _ hc => List.mem_map_of_mem hc) fun _ => Nat.lt_succ_self 1
  | ofClass c =>
    exact hany .ofMethod h (fun _ hm => List.mem_map_of_mem hm) fun _ => Nat.lt_succ_self 2
  | ofMethod m =>
    exact hany .ofCall h (fun _ hc => List.mem_map_of_mem hc) fun _ => Nat.lt_succ_self 3
  | ofCall c => cases h

theorem exists_delete {w : Write} (h : w ∈ x.deletions) : ∃ row, w = .delete row := by
  obtain ⟨row, -, rfl⟩ := List.mem_map.1 h
  exact ⟨row, rfl⟩

/-- **No row is referred to when its turn comes.** -/
theorem isReferred_of_deleted {before after : List Write}
    (h : x.deletions = before ++ .delete row :: after) :
    (x.performAll before).isReferred row = false := by
  by_contra hreferred
  obtain ⟨child, hchild, hlevel⟩ := exists_deeper (by simpa using hreferred)
  have hbefore : ∀ w ∈ before, ∃ row, w = .delete row :=
    fun w hw => exists_delete (h ▸ List.mem_append_left _ hw)
  -- the child has not been deleted, so its turn comes later
  obtain ⟨hx, hnot⟩ := mem_performAll_delete hbefore hchild
  have hin : .delete child ∈ before ++ .delete row :: after := h ▸ mem_deletions.2 hx
  rcases List.mem_append.1 hin with hin | hin
  · exact hnot hin
  rcases List.mem_cons.1 hin with he | hlater
  · cases he
    omega
  · -- but then it is no deeper than the row
    have hdescend := (List.pairwise_append.1 (h ▸ x.deletions_descend)).2.1
    have hle : child.table.level ≤ row.table.level :=
      (List.pairwise_cons.1 hdescend).1 _ hlater
    omega

/-- All deletes together leave no row. -/
theorem performAll_deletions (x : Index) : x.performAll x.deletions = .empty := by
  have hnone : ∀ t, (x.performAll x.deletions).rowsOf t = [] := by
    intro t
    refine List.eq_nil_iff_forall_not_mem.2 fun r hr => ?_
    obtain ⟨hx, hnot⟩ := mem_performAll_delete (fun w hw => exists_delete hw) hr
    exact hnot (mem_deletions.2 (table_of_mem_rowsOf hr ▸ hx))
  generalize x.performAll x.deletions = y at hnone
  obtain ⟨projects, documents, classes, methods, calls⟩ := y
  obtain rfl : projects = [] := List.map_eq_nil_iff.1 (hnone .projects)
  obtain rfl : documents = [] := List.map_eq_nil_iff.1 (hnone .documents)
  obtain rfl : classes = [] := List.map_eq_nil_iff.1 (hnone .classes)
  obtain rfl : methods = [] := List.map_eq_nil_iff.1 (hnone .methods)
  obtain rfl : calls = [] := List.map_eq_nil_iff.1 (hnone .methodCalls)
  rfl

/-! ## Calls of the library -/

/-- A call of the library: an operation, or a query. -/
inductive Call where
  | change (op : Operation)
  | ask (q : Cli.Query)

/-- What a call returns, be it an error. -/
inductive Returned where
  | report (result : Except Error Report)
  | reports (result : Except Error (List Report))
  | cleared (result : Except Error Unit)
  | reply (q : Cli.Query) (result : Except Error q.Reply)

/-- What an operation returns. -/
def Operation.returned (refuse : Refusal) (x : Index) : Operation → Returned
  | ingest b => .report (x.ingest refuse b).2
  | ingestAll bs => .reports (x.ingestAll refuse bs).2
  | ingestJson text => .reports (x.ingestJson refuse text).2
  | clear => .cleared (x.clear refuse).2

namespace Call

/-- The index after a call. A query leaves it as it is. -/
def apply (refuse : Refusal) (x : Index) : Call → Index
  | change op => op.apply refuse x
  | ask _ => x

def returned (refuse : Refusal) (x : Index) : Call → Returned
  | change op => op.returned refuse x
  | ask q => .reply q (q.reply x)

end Call

/-- What some calls return, one after the other, each with what the database refuses while it runs. -/
def session (x : Index) : List (Refusal × Call) → List Returned
  | [] => []
  | (refuse, call) :: rest => call.returned refuse x :: session (call.apply refuse x) rest

/-- The index after some calls. -/
def afterCalls (x : Index) (calls : List (Refusal × Call)) : Index :=
  calls.foldl (fun x call => call.2.apply call.1 x) x

theorem session_append (x : Index) (calls more : List (Refusal × Call)) :
    x.session (calls ++ more) = x.session calls ++ (x.afterCalls calls).session more := by
  induction calls generalizing x with
  | nil => rfl
  | cons call calls ih =>
    have hrest := ih (call.2.apply call.1 x)
    show _ :: session _ (calls ++ more) = _ :: (session _ calls ++ _)
    rw [hrest]
    rfl

/-- A clear without a refused delete. -/
theorem clear_of_allowed (h : ∀ w ∈ x.deletions, refuse w = none) :
    x.clear refuse = (.empty, .ok ()) := by
  have hnone : x.deletions.findSome? refuse = none := List.findSome?_eq_none_iff.2 h
  rw [x.clear_eq refuse, hnone]

/-- **A clear is a full reset.** Let no delete of a row be refused, whatever else is. Each row is deleted
when no row that is left refers to it, so no reference keeps one from being deleted, and no row is left.
However the index was reached, the calls before the clear have returned what they did, and all calls
after it return what they return on a new index. -/
theorem clear_resets (h : ∀ w ∈ x.deletions, refuse w = none) :
    (∀ before row after, x.deletions = before ++ .delete row :: after →
      (x.performAll before).isReferred row = false) ∧
    x.performAll x.deletions = .empty ∧ x.clear refuse = (.empty, .ok ()) ∧
    ∀ start history later, afterCalls start history = x →
      session start (history ++ (refuse, .change .clear) :: later) =
        session start history ++ .cleared (.ok ()) :: session .empty later := by
  have hclear := clear_of_allowed h
  refine ⟨fun _ _ _ hsplit => isReferred_of_deleted hsplit, performAll_deletions x, hclear, ?_⟩
  intro start history later hx
  have hreturned : Call.returned refuse x (.change .clear) = .cleared (.ok ()) :=
    congrArg (fun r : Index × Except Error Unit => Returned.cleared r.2) hclear
  have hleft : Call.apply refuse x (.change .clear) = .empty := congrArg Prod.fst hclear
  rw [session_append, hx, session, hreturned, hleft]

/-- Inserts are refused during the clear and deletes are not. After it the ids start again, and a method
of the old index is not found. -/
theorem clear_resets_ids :
    let refuse := Guard.refusal [⟨.insert, .methods, "no methods", none⟩]
    let old : Batch := ⟨"demo", "A.java", ["A", "B"],
      [⟨"void A.f()", "", none, none⟩, ⟨"void B.g()", "", none, none⟩],
      [⟨"void A.f()", "void B.g"⟩, ⟨"void B.g()", "void A.f"⟩]⟩
    let new : Batch := ⟨"other", "B.java", ["B"], [⟨"void B.g()", "", none, none⟩], []⟩
    let x := (Index.empty.ingest .never old).1
    let later : List (Refusal × Call) :=
      [(.never, .ask (.detail 1)), (.never, .change (.ingest new)), (.never, .ask (.callees 2))]
    x.deletions.length = 8 ∧ x.clear refuse = (.empty, .ok ()) ∧
      session .empty ((.never, .change (.ingest old)) :: (refuse, .change .clear) :: later) =
        [.report (.ok ⟨1, 1, 2, 2, 0, 2, []⟩), .cleared (.ok ()),
          .reply (.detail 1) (.error (.notFound "method id 1")),
          .report (.ok ⟨1, 1, 1, 1, 0, 0, []⟩),
          .reply (.callees 2) (.error (.notFound "method id 2"))] := by
  intro refuse old new x later
  have hdeletes : ∀ w ∈ x.deletions, refuse w = none := by decide +kernel
  obtain ⟨-, -, hclear, hsession⟩ := clear_resets hdeletes
  refine ⟨by decide +kernel, hclear, ?_⟩
  have hold : Index.empty.ingest .never old = (x, .ok ⟨1, 1, 2, 2, 0, 2, []⟩) := by decide +kernel
  have hnew : (Index.empty.ingest .never new).2 = .ok ⟨1, 1, 1, 1, 0, 0, []⟩ := by decide +kernel
  have hdetail : Call.returned .never .empty (.ask (.detail 1)) =
      .reply (.detail 1) (.error (.notFound "method id 1")) := by
    have hnone : Index.empty.methodDetail 1 = .error (.notFound "method id 1") := by decide +kernel
    exact congrArg (Returned.reply (.detail 1)) hnone
  have hcallees : Call.returned .never (Index.empty.ingest .never new).1 (.ask (.callees 2)) =
      .reply (.callees 2) (.error (.notFound "method id 2")) := by
    have hnone : (Index.empty.ingest .never new).1.callees 2 = .error (.notFound "method id 2") := by
      decide +kernel
    exact congrArg (fun r => Returned.reply (.callees 2) (Except.map UsedMethods.mk r)) hnone
  refine (hsession .empty [(.never, .change (.ingest old))] later rfl).trans ?_
  show [Returned.report (Index.empty.ingest .never old).2] ++ Returned.cleared (.ok ()) ::
    [Call.returned .never .empty (.ask (.detail 1)),
      .report (Index.empty.ingest .never new).2,
      Call.returned .never (Index.empty.ingest .never new).1 (.ask (.callees 2))] = _
  rw [hold, hdetail, hnew, hcallees]
  rfl

end Index

end CallIndex
