import CallIndex.Index.Clear
import CallIndex.Index.Guard
import CallIndex.Index.Ingest

/-!
# Journals

A batch is a list of writes. Which writes they are hangs on the index and the batch alone; what the
database refuses only decides whether they are made.

* `Index.perform`: one write, made.
* `Index.Makes`: a step makes these writes and ends with this value. The first of them that is
  refused fails the step with its fault.
* `Index.Journal`: the writes and the report of a batch. Every batch has a journal on every index
  (`exists_journal`).
* `Index.clear_eq`: a clear deletes all rows, children before parents. No row that is left ever
  refers to a deleted one, so only a refusal fails it.
-/

namespace CallIndex

/-- The rows of a table after one write to it. -/
def WriteEvent.edit {α : Type} (id : α → RowId) (row : α) (rows : List α) : WriteEvent → List α
  | insert => rows ++ [row]
  | update => rows.map fun r => if id r = id row then row else r
  | delete => rows.filter fun r => id r ≠ id row

namespace Index

/-- The index after one write. -/
def perform (x : Index) (w : Write) : Index :=
  match w.row with
  | .ofProject row => { x with projects := w.event.edit Project.id row x.projects }
  | .ofDocument row => { x with documents := w.event.edit Document.id row x.documents }
  | .ofClass row => { x with classes := w.event.edit Class.id row x.classes }
  | .ofMethod row => { x with methods := w.event.edit Method.id row x.methods }
  | .ofCall row => { x with calls := w.event.edit MethodCall.id row x.calls }

/-- The index after some writes, one after the other. -/
def performAll (x : Index) (ws : List Write) : Index := ws.foldl perform x

/-- A step makes these writes on an index and ends with this value. The first write that is refused
fails it, whatever was written before. -/
def Makes {β : Type} (x : Index) (step : Refusal → Except Error (Index × β)) (ws : List Write)
    (v : β) : Prop :=
  ∀ refuse : Refusal, step refuse = match ws.findSome? refuse with
    | some fault => .error (.database fault)
    | none => .ok (x.performAll ws, v)

variable {x : Index} {α β γ : Type}

theorem makes_nothing (x : Index) (v : β) : Makes x (fun _ => .ok (x, v)) [] v := fun _ => rfl

/-- One write, looked at before it is made. -/
theorem makes_one (x : Index) (w : Write) (v : β) :
    Makes x (fun refuse => refuse.check w >>= fun _ => .ok (x.perform w, v)) [w] v := by
  intro refuse
  unfold Refusal.check
  cases h : refuse w with
  | some fault => simp [h, bind, Except.bind]
  | none => simp [h, bind, Except.bind, performAll]

/-- Two steps make the writes of the first, then those of the second. -/
theorem Makes.bind {first : Refusal → Except Error (Index × β)}
    {second : Refusal → Index × β → Except Error (Index × γ)} {ws vs : List Write} {v : β} {u : γ}
    (h1 : Makes x first ws v)
    (h2 : Makes (x.performAll ws) (fun refuse => second refuse (x.performAll ws, v)) vs u) :
    Makes x (fun refuse => first refuse >>= second refuse) (ws ++ vs) u := by
  intro refuse
  show first refuse >>= second refuse = _
  rw [h1 refuse, List.findSome?_append]
  cases hw : ws.findSome? refuse with
  | some fault => rfl
  | none =>
    have hv := h2 refuse
    have happ : x.performAll (ws ++ vs) = (x.performAll ws).performAll vs := List.foldl_append
    rw [happ]
    exact hv

/-- A run of steps that each make some writes makes all of them. -/
theorem exists_makes_runAll {step : Refusal → Index → α → Except Error (Index × β)}
    (hstep : ∀ x a, ∃ ws v, Makes x (fun refuse => step refuse x a) ws v) (x : Index)
    (as : List α) : ∃ ws vs, Makes x (fun refuse => runAll (step refuse) x as) ws vs := by
  induction as generalizing x with
  | nil => exact ⟨[], [], makes_nothing x []⟩
  | cons a as ih =>
    obtain ⟨ws, v, h1⟩ := hstep x a
    obtain ⟨ws', vs, h2⟩ := ih (x.performAll ws)
    exact ⟨ws ++ (ws' ++ []), v :: vs, h1.bind (h2.bind (makes_nothing _ _))⟩

/-! ## The steps of a batch -/

theorem exists_makes_resolveProject (x : Index) (name : String) :
    ∃ ws id, Makes x (fun refuse => resolveProject refuse x name) ws id := by
  unfold resolveProject
  cases x.projectByName? name with
  | some p => exact ⟨_, _, makes_nothing x p.id⟩
  | none => exact ⟨_, _, makes_one x (.insert (.ofProject _)) _⟩

theorem exists_makes_resolveDocument (x : Index) (projectId : RowId) (path : String) :
    ∃ ws id, Makes x (fun refuse => resolveDocument refuse x projectId path) ws id := by
  unfold resolveDocument
  cases x.documentByPath? path with
  | some d => exact ⟨_, _, makes_nothing x d.id⟩
  | none => exact ⟨_, _, makes_one x (.insert (.ofDocument _)) _⟩

theorem exists_makes_resolveClass (documentId : RowId) (x : Index) (name : String) :
    ∃ ws id, Makes x (fun refuse => resolveClass refuse documentId x name) ws id := by
  unfold resolveClass
  cases x.classByName? name with
  | some c => exact ⟨_, _, makes_nothing x (name, c.id)⟩
  | none => exact ⟨_, _, makes_one x (.insert (.ofClass _)) _⟩

theorem exists_makes_writeMethod (classIds : List (String × RowId)) (x : Index) (m : MethodInput) :
    ∃ ws e, Makes x (fun refuse => writeMethod refuse classIds x m) ws e := by
  unfold writeMethod
  cases x.methodBySignature? m.signature with
  | some stored => exact ⟨_, _, makes_one x (.update (.ofMethod _)) _⟩
  | none =>
    dsimp only
    cases splitSignature m.signature with
    | none => exact ⟨_, _, makes_nothing x _⟩
    | some parts =>
      dsimp only
      cases classIds.lookup parts.owner with
      | none => exact ⟨_, _, makes_nothing x _⟩
      | some classId => exact ⟨_, _, makes_one x (.insert (.ofMethod _)) _⟩

theorem exists_makes_writeCall (x : Index) (c : CallInput) :
    ∃ ws e, Makes x (fun refuse => writeCall refuse x c) ws e := by
  unfold writeCall
  cases x.methodBySignature? c.caller with
  | none => exact ⟨_, _, makes_nothing x _⟩
  | some caller =>
    dsimp only
    cases x.resolveCallee c.callee with
    | none => exact ⟨_, _, makes_nothing x _⟩
    | some callee => exact ⟨_, _, makes_one x (.insert (.ofCall _)) _⟩

/-- The writes of a batch on an index, and the report that it ends with. -/
def Journal (x : Index) (b : Batch) (ws : List Write) (r : Report) : Prop :=
  Makes x (fun refuse => writeBatch refuse x b) ws r

/-- **Every batch has a journal.** What it writes does not hang on what would be refused. -/
theorem exists_journal (x : Index) (b : Batch) : ∃ ws r, x.Journal b ws r := by
  unfold Journal writeBatch
  -- each step starts on the index that the writes before it made
  obtain ⟨ws1, projectId, h1⟩ := exists_makes_resolveProject x b.project
  obtain ⟨ws2, documentId, h2⟩ :=
    exists_makes_resolveDocument (x.performAll ws1) projectId b.document
  obtain ⟨ws3, classIds, h3⟩ :=
    exists_makes_runAll (exists_makes_resolveClass documentId) ((x.performAll ws1).performAll ws2)
      b.classes
  obtain ⟨ws4, methods, h4⟩ :=
    exists_makes_runAll (exists_makes_writeMethod classIds)
      (((x.performAll ws1).performAll ws2).performAll ws3) b.methods
  obtain ⟨ws5, calls, h5⟩ :=
    exists_makes_runAll exists_makes_writeCall
      ((((x.performAll ws1).performAll ws2).performAll ws3).performAll ws4) b.calls
  exact ⟨_, _, h1.bind (h2.bind (h3.bind (h4.bind (h5.bind (makes_nothing _ _)))))⟩

/-! ## Clear -/

/-- The writes of a clear: every row, children before parents. -/
def deletions (x : Index) : List Write := (Table.all.reverse.flatMap x.rowsOf).map .delete

theorem forM_check (refuse : Refusal) (rows : List Row) :
    (rows.forM fun row => refuse.check (.delete row)) =
      match (rows.map Write.delete).findSome? refuse with
      | some fault => .error (.database fault)
      | none => .ok () := by
  induction rows with
  | nil => rfl
  | cons row rows ih =>
    show (refuse.check (.delete row) >>= fun _ => rows.forM _) = _
    rw [ih, List.map_cons, List.findSome?_cons]
    unfold Refusal.check
    cases refuse (.delete row) <;> rfl

/-- A table whose rows nothing refers to is deleted, unless one of its deletes is refused. What is
done next starts without it. -/
theorem deleteTable_bind {refuse : Refusal} {t : Table} {next : Index → Except Error Index}
    {ws : List Write} {y : Index} (h : ∀ row ∈ x.rowsOf t, x.isReferred row = false)
    (hnext : next (x.without t) = match ws.findSome? refuse with
      | some fault => .error (.database fault)
      | none => .ok y) :
    (deleteTable refuse x t >>= next) =
      match ((x.rowsOf t).map Write.delete ++ ws).findSome? refuse with
      | some fault => .error (.database fault)
      | none => .ok y := by
  have hany : (x.rowsOf t).any x.isReferred = false := by
    rw [List.any_eq_false]
    intro row hrow
    simp [h row hrow]
  unfold deleteTable
  rw [forM_check, hany, List.findSome?_append]
  cases ((x.rowsOf t).map Write.delete).findSome? refuse with
  | some fault => rfl
  | none => exact hnext

/-- **A clear fails exactly when one of its deletes is refused.** The children of a table are gone
when its own rows are deleted, so no reference is ever left. -/
theorem clear_eq (x : Index) (refuse : Refusal) :
    x.clear refuse = match x.deletions.findSome? refuse with
      | some fault => (x, .error (.database fault))
      | none => (.empty, .ok ()) := by
  have hsplit : x.deletions = (x.rowsOf .methodCalls).map Write.delete ++
      ((x.rowsOf .methods).map Write.delete ++ ((x.rowsOf .classes).map Write.delete ++
        ((x.rowsOf .documents).map Write.delete ++
          ((x.rowsOf .projects).map Write.delete ++ [])))) := by
    simp [deletions, Table.all]
  have hclear : clearTables refuse x = match x.deletions.findSome? refuse with
      | some fault => .error (.database fault)
      | none => .ok .empty := by
    rw [hsplit]
    -- at each table the one that refers to it is gone
    refine deleteTable_bind (by simp [rowsOf, isReferred]) ?_
    refine deleteTable_bind (by simp [rowsOf, isReferred, without]) ?_
    refine deleteTable_bind (by simp [rowsOf, isReferred, without]) ?_
    refine deleteTable_bind (by simp [rowsOf, isReferred, without]) ?_
    refine deleteTable_bind (by simp [rowsOf, isReferred, without]) ?_
    rfl
  unfold clear
  rw [hclear]
  cases x.deletions.findSome? refuse <;> rfl

end Index

end CallIndex
