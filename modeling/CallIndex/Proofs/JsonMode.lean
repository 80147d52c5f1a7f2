import CallIndex.Cli.Run
import CallIndex.Proofs.CommandLine
import CallIndex.Proofs.OpenedFiles
import CallIndex.Proofs.Replay
import CallIndex.Proofs.Replies

/-!
# JSON mode is faithful

A run in JSON prints what the library says, and leaves what the library leaves. The printed document is
read back here, so it does not matter which texts are stored.

* `Index.outcomes_legible`: the outcomes of an ingest are told by their JSON form.
* `Cli.Prints`, `Cli.Output.Reports`: what is printed is one document, and it tells a result of the library.
* `Cli.Faithful`: where a run has its settings, its batches and its index from, and what it has to leave and
  to report, by how far it comes: no settings, no batches, no database, a query, an ingest.
* `Cli.json_mode_faithful`: **every run in JSON of a command that has a value is faithful** to what its
  arguments ask for.
-/

namespace CallIndex

open Json Index

/-! ## Ingests -/

namespace Index

variable {x y : Index} {refuse : Refusal}

/-- A database that may only be read is not changed by an ingest, whether it fails or has nothing to
write. -/
theorem ingest_always (x : Index) (b : Batch) : (x.ingest .always b).1 = x := by
  rcases ingest_cases .always x b with ⟨e, he⟩ | ⟨-, -, -, hb, -⟩
  · rw [he]
  · obtain ⟨ws, r, hj⟩ := exists_journal x b
    rw [ingest_journal .always hb hj]
    cases ws <;> rfl

theorem ingestJson_always (x : Index) (text : String) : (x.ingestJson .always text).1 = x := by
  unfold ingestJson
  split
  · rfl
  · refine ingestAll_induct (P := fun y => y = x) ?_ _ rfl
    rintro y b rfl
    exact ingest_always y b

/-- The ids in the reports are those of projects that are there afterwards. -/
theorem WrittenEach.projects {bs : List Batch} {rs : List Report} {es : List (RowId × RowId)}
    (h : WrittenEach x bs y rs es) :
    x.projects <+: y.projects ∧ ∀ r ∈ rs, r.projectId ∈ y.projects.map Project.id := by
  induction h with
  | nil x => exact ⟨List.prefix_rfl, fun _ h => nomatch h⟩
  | cons hb hw hrest ih =>
    obtain ⟨hprojects, hreports⟩ := ih
    refine ⟨hw.isPrefix_projects.trans hprojects, List.forall_mem_cons.2 ⟨?_, hreports⟩⟩
    obtain ⟨p, hp, -, hid⟩ := hw.project
    exact hid ▸ List.mem_map_of_mem (hprojects.subset hp)

/-- **The outcomes of an ingest are legible.** -/
theorem outcomes_legible (hx : WellFormed x) {text : String} {reports : List Report}
    (h : x.ingestJson refuse text = (y, .ok reports)) (hy : NarrowIds y) :
    Legible maxDepth (reports.map Report.outcome) := by
  unfold ingestJson at h
  split at h
  · cases h
  · obtain ⟨es, hes⟩ := writtenEach_of_ingestAll hx h
    refine Lawful.legible_list (by decide) (List.forall_mem_map.2 fun r hr => ?_)
    obtain ⟨p, hp, hid⟩ := List.mem_map.1 (hes.projects.2 r hr)
    refine Value.narrow_object.2 ?_
    simpa [encode, Report.outcome] using hid ▸ hy.projects p hp

end Index

namespace Cli

/-! ## Outputs -/

/-- What is printed is one document that reads as a value, and a line feed after it. -/
def Prints (stdout : String) (v : Value) : Prop :=
  ∃ doc : String, stdout = doc ++ "\n" ∧ readValue maxDepth doc.toList = .ok (v, [])

/-- A document reads as one value only. -/
theorem Prints.unique {stdout : String} {v w : Value} (hv : Prints stdout v)
    (hw : Prints stdout w) : v = w := by
  obtain ⟨doc, rfl, hv⟩ := hv
  obtain ⟨doc', hdoc, hw⟩ := hw
  have hsame : doc.toList = doc'.toList := by
    have hlist := congrArg String.toList hdoc
    simpa using hlist
  rw [hsame, hw] at hv
  cases hv
  rfl

theorem prints_pretty {v : Value} (hv : v.Narrow) (hd : v.depth ≤ maxDepth) :
    Prints (v.pretty ++ "\n") v :=
  ⟨v.pretty, rfl, by
    unfold Value.pretty
    rw [String.toList_ofList]
    exact (hv.pretty 0).readValue hv hd⟩

theorem prints_failure (e : Error) :
    Prints (failure e) (.object [("error", .string e.message)]) := by
  have hv : (encode (BatchFailure.mk e.message)).Narrow := narrow_of_forms (BatchFailure.forms _)
  refine ⟨write (BatchFailure.mk e.message), rfl, ?_⟩
  unfold write Value.compact
  rw [String.toList_ofList]
  exact hv.compact.readValue hv (Nat.le_trans (Lawful.depth_le hv) (by decide))

/-- An output reports an error of the library: its text as the only member of an object, with exit code 1. -/
def Output.Fails (o : Output) (e : Error) : Prop :=
  o.exit = 1 ∧ Prints o.stdout (.object [("error", .string e.message)])

/-- An output reports a result of the library: with exit code 0 it tells the value and no other one of its
type. -/
def Output.Reports {α : Type} [Encode α] (o : Output) : Except Error α → Prop
  | .ok a => o.exit = 0 ∧ ∀ b : α, Prints o.stdout (encode b) ↔ b = a
  | .error e => o.Fails e

theorem outcome_fails (e : Error) : (outcome true (.error e)).Fails e := ⟨rfl, prints_failure e⟩

/-- **An answer reports the result that it holds**, if the value is legible. -/
theorem outcome_reports {α : Type} [Encode α] {result : Except Error α}
    {answer : Except Error Answer} (h : Answers result answer)
    (hlegible : ∀ a, result = .ok a → Legible maxDepth a) :
    (outcome true (answer.map fun a => a.printed true)).Reports result := by
  cases h with
  | error e => exact outcome_fails e
  | ok a text =>
    have ha := hlegible a rfl
    have hprints := prints_pretty ha.narrow ha.shallow
    refine ⟨rfl, fun b => ⟨fun hb => ha.unique b (hb.unique hprints), ?_⟩⟩
    rintro rfl
    exact hprints

/-! ## Requests -/

/-- The word that a query has among the commands. -/
def Query.verb : Query → Verb
  | callees _ => .callees
  | callers _ => .callers
  | graph => .graph
  | method _ _ => .method
  | detail _ => .detail
  | context _ _ => .context
  | related _ _ => .related
  | prompt _ _ _ => .prompt
  | list _ => .list
  | stats => .stats

def Command.verb : Command → Verb
  | init _ => .init
  | ingest _ => .ingest
  | ask q => q.verb
  | clear _ => .clear

/-- The settings of a request over others: a database that it names replaces theirs. -/
def Request.over (r : Request) (c : Config) : Config :=
  match r.database with
  | some path => { c with database := { c.database with path } }
  | none => c

theorem settings_eq (complaint : String → String) (files : FileTree) (r : Request) :
    settings complaint files r =
      (baseSettings complaint files r.config r.command.makesSettings).map r.over := by
  unfold settings Request.over
  cases baseSettings complaint files r.config r.command.makesSettings <;> cases r.database <;> rfl

/-! ## Faithful runs -/

/-- A run of a command in JSON does what the library does: it leaves the tree that the library leaves, and
reports the result of the library. -/
structure Faithful (complaint : String → String) (files : FileTree) (stdin : Content) (r : Request)
    (after : FileTree) (o : Output) : Prop where
  /-- The settings are those of the file that is named, or else of the usual file if there is one, or else the
  usual ones. A database that is named replaces theirs. -/
  settled : settings complaint files r = Except.map r.over
    (match r.config.or
        (if files.has (Path.ofString defaultConfigPath) then some defaultConfigPath else none) with
    | some path => orError (files.read (Path.ofString path)) >>= Config.load complaint path
    | none => .ok .default)
  /-- Nothing is done without settings. -/
  unsettled : ∀ e, settings complaint files r = .error e → after = files ∧ o.Fails e
  /-- The batches are the text of the file that is named. A dash stands for the standard input. -/
  batches : ∀ file text, r.command = .ingest file → (batchText files stdin file = .ok text ↔
    if (Path.ofString file).isName "-" then stdin = .text text
    else files.read (Path.ofString file) = .ok (.text text))
  /-- Nothing is done without the text of the batches. -/
  unread : ∀ c file e, settings complaint files r = .ok c → r.command = .ingest file →
    batchText files stdin file = .error e → after = files ∧ o.Fails e
  unopened : ∀ c opened e, settings complaint files r = .ok c →
    (∀ file, r.command = .ingest file → ∃ text, batchText files stdin file = .ok text) →
    files.openDatabase c = (opened, .error e) → after = opened ∧ o.Fails e
  /-- A database that is opened is the one that the settings name. -/
  opened : ∀ c opened d, settings complaint files r = .ok c →
    files.openDatabase c = (opened, .ok d) → files.Opens c.database.path opened d
  /-- A database that stands where the settings say is opened. -/
  stored : ∀ c place x, settings complaint files r = .ok c → files.Holds c place x →
    files.openDatabase c = (files, .ok ⟨some place, false, x⟩)
  /-- A query replies what the library replies over the index, and leaves the index. -/
  asked : ∀ c q opened d, settings complaint files r = .ok c → r.command = .ask q →
    files.openDatabase c = (opened, .ok d) → Reachable d.index → NarrowIds d.index →
    after = opened ∧ after.Stores d d.index ∧ o.Reports (q.reply d.index)
  /-- An ingest tells the outcomes in the order of the batches, and leaves the index that the library
  leaves, finished or failed. -/
  ingested : ∀ c file text opened d y result, settings complaint files r = .ok c →
    r.command = .ingest file → batchText files stdin file = .ok text →
    files.openDatabase c = (opened, .ok d) → Reachable d.index →
    d.index.ingestJson d.refusal text = (y, result) → NarrowIds y →
    after = opened.storeIndex d y ∧ after.Stores d y ∧
      o.Reports (result.map fun reports => reports.map Report.outcome)

variable {complaint : String → String} {files : FileTree} {stdin : Content} {r : Request}

theorem batchText_eq_ok_iff {file text : String} : batchText files stdin file = .ok text ↔
    if (Path.ofString file).isName "-" then stdin = .text text
    else files.read (Path.ofString file) = .ok (.text text) := by
  have hasText (content : Content) : orError content.asText = .ok text ↔ content = .text text := by
    cases content <;> simp [Content.asText, orError]
  have hread : batchText files stdin file = (do
      let content ← if (Path.ofString file).isName "-" then .ok stdin
        else orError (files.read (Path.ofString file))
      orError content.asText) := rfl
  rw [hread]
  split
  · exact hasText stdin
  · cases files.read (Path.ofString file) with
    | error fault => exact ⟨(nomatch ·), (nomatch ·)⟩
    | ok content => exact (hasText content).trans (by simp)

theorem serve_error {e : Error} (hc : settings complaint files r = .error e) :
    serve complaint files stdin r = (files, outcome r.json (.error e)) := by
  unfold serve
  rw [hc]

theorem serve_ask {c : Config} {q : Query} (hc : settings complaint files r = .ok c)
    (hq : r.command = .ask q) :
    serve complaint files stdin r = ((ask files c q).1,
      outcome r.json ((ask files c q).2.map fun a => a.printed r.json)) := by
  unfold serve perform
  rw [hc, hq]

theorem serve_ingest {c : Config} {file : String} (hc : settings complaint files r = .ok c)
    (hfile : r.command = .ingest file) :
    serve complaint files stdin r = ((ingest files stdin c file).1,
      outcome r.json ((ingest files stdin c file).2.map fun a => a.printed r.json)) := by
  unfold serve perform
  rw [hc, hfile]

/-- A database that cannot be opened. -/
theorem serve_unopened {c : Config} {opened : FileTree} {e : Error} (hjson : r.json = true)
    (hverb : r.command.verb ≠ .init ∧ r.command.verb ≠ .clear)
    (hc : settings complaint files r = .ok c)
    (htext : ∀ file, r.command = .ingest file → ∃ text, batchText files stdin file = .ok text)
    (hopen : files.openDatabase c = (opened, .error e)) :
    (serve complaint files stdin r).1 = opened ∧ (serve complaint files stdin r).2.Fails e := by
  cases hcommand : r.command with
  | init | clear => rw [hcommand] at hverb; simp [Command.verb] at hverb
  | ask q =>
    rw [serve_ask hc hcommand, hjson]
    unfold ask
    rw [hopen]
    exact ⟨rfl, outcome_fails e⟩
  | ingest file =>
    obtain ⟨text, htext⟩ := htext file hcommand
    rw [serve_ingest hc hcommand, hjson]
    unfold ingest
    simp only [htext, hopen]
    exact ⟨trivial, outcome_fails e⟩

/-- A query over a database that was opened. -/
theorem serve_asked {c : Config} {q : Query} {opened : FileTree} {d : OpenDatabase}
    (hjson : r.json = true) (hc : settings complaint files r = .ok c) (hq : r.command = .ask q)
    (hopen : files.openDatabase c = (opened, .ok d)) (hx : Reachable d.index)
    (hids : NarrowIds d.index) :
    (serve complaint files stdin r).1 = opened ∧ (serve complaint files stdin r).2.Reports (q.reply d.index) := by
  rw [serve_ask hc hq, hjson]
  unfold ask
  rw [hopen]
  exact ⟨rfl, outcome_reports (q.answer_reply _ _ _) fun a => Query.reply_legible hx.wellFormed hids⟩

/-- An ingest into a database that was opened. -/
theorem serve_ingested {c : Config} {file text : String} {opened : FileTree} {d : OpenDatabase}
    {y : Index} {result : Except Error (List Report)} (hjson : r.json = true)
    (hc : settings complaint files r = .ok c) (hfile : r.command = .ingest file)
    (htext : batchText files stdin file = .ok text)
    (hopen : files.openDatabase c = (opened, .ok d)) (hx : Reachable d.index)
    (hingest : d.index.ingestJson d.refusal text = (y, result)) (hids : NarrowIds y) :
    (serve complaint files stdin r).1 = opened.storeIndex d y ∧
      (serve complaint files stdin r).2.Reports (result.map fun reports => reports.map Report.outcome) := by
  rw [serve_ingest hc hfile, hjson]
  unfold ingest
  simp only [htext, hopen, hingest]
  refine ⟨trivial, outcome_reports ?_ ?_⟩
  · cases result with
    | error e => exact .error e
    | ok reports => exact .ok (reports.map Report.outcome) _
  · intro outcomes h
    obtain ⟨reports, rfl, rfl⟩ := ok_of_map _ h
    exact outcomes_legible hx.wellFormed hingest hids

/-- **Command line JSON mode is faithful.** Arguments have a request if and only if they ask for it. Take
any that ask for JSON and for one of the commands that have a value, any tree of files and any input. The
settings and the batches are those of the files that are named, and the index is that of the database that
the settings name. What is printed is one document and a line feed. With exit code 0 it is the value of the
library, with exit code 1 the text of its error, and the index is left as the library leaves it, whatever
texts are stored. Ids have 64 bits, as a database keeps them (`narrowIds_run`). -/
theorem json_mode_faithful (complaint : String → String) (files : FileTree) (stdin : Content)
    (args : List String) :
    (∀ r, parse args = .ok r ↔ CommandLine args r) ∧
      ∀ r, CommandLine args r → r.json = true →
        r.command.verb ≠ .init ∧ r.command.verb ≠ .clear →
        Faithful complaint files stdin r (run complaint files stdin args).1
          (run complaint files stdin args).2 := by
  refine ⟨fun r => parse_iff, fun r hline hjson hverb => ?_⟩
  have hrun : run complaint files stdin args = serve complaint files stdin r := by
    unfold run
    rw [parse_iff.2 hline]
  rw [hrun]
  constructor
  case settled =>
    have hkept : r.command.makesSettings = false := by
      cases hcommand : r.command with
      | init => exact absurd (congrArg Command.verb hcommand) hverb.1
      | _ => rfl
    rw [settings_eq, hkept]
    unfold baseSettings
    cases r.config with
    | some path => rfl
    | none =>
      dsimp only
      split <;> rfl
  case batches => exact fun _ _ _ => batchText_eq_ok_iff
  case unsettled =>
    intro e hc
    rw [serve_error hc, hjson]
    exact ⟨rfl, outcome_fails e⟩
  case unread =>
    intro c file e hc hfile htext
    rw [serve_ingest hc hfile, hjson]
    unfold ingest
    rw [htext]
    exact ⟨rfl, outcome_fails e⟩
  case unopened => exact fun c opened e => serve_unopened hjson hverb
  case opened => exact fun c opened d _ hopen => FileTree.openDatabase_opens hopen
  case stored => exact fun c place x _ hholds => FileTree.openDatabase_of_holds hholds
  case asked =>
    intro c q opened d hc hq hopen hx hids
    obtain ⟨hafter, hreports⟩ := serve_asked hjson hc hq hopen hx hids
    exact ⟨hafter, hafter ▸ (FileTree.openDatabase_opens hopen).stores, hreports⟩
  case ingested =>
    intro c file text opened d y result hc hfile htext hopen hx hingest hids
    obtain ⟨hafter, hreports⟩ := serve_ingested hjson hc hfile htext hopen hx hingest hids
    refine ⟨hafter, hafter ▸ FileTree.storeIndex_stores (FileTree.openDatabase_opens hopen).stores ?_,
      hreports⟩
    -- a database that may only be read refuses whatever would change it
    intro hread
    have hy := ingestJson_always d.index text
    unfold OpenDatabase.refusal at hingest
    rw [hread, if_pos rfl] at hingest
    rwa [hingest] at hy

/-- Some words for a text that is no settings file. -/
def sayInvalid (_ : String) : String := "invalid type"

/-- A method with quotes, a line feed and a null character in its texts calls itself, and is its own callee.
An id that is not there is an error. Two batches of the standard input are ingested. -/
theorem json_mode_faithful_quoted :
    let f := "void A.f(\"\\\n\x00é)"
    let x := Index.run .empty [(.never, .ingestAll [⟨"demo", "A.java", ["A"],
      [⟨f, "\x7b\"error\": 1\x7d\n", none, none⟩], [⟨f, "void A.f(\""⟩]⟩])]
    let files : FileTree := ⟨["home"], [(["x.db", "home"], .database x)]⟩
    let batches := "[\x7b\"project\": \"\\\"\", \"document\": \"B.java\"\x7d," ++
      "\x7b\"project\": \"demo\", \"document\": \"B.java\"\x7d]"
    let found := run sayInvalid files .bytes ["--db", "x.db", "callees", "1", "--json"]
    let missing := run sayInvalid files .bytes ["--json", "show", "7", "--db=x.db"]
    let ingested := run sayInvalid files (.text batches) ["ingest", "-", "--json", "--db", "x.db"]
    (found.1 = files ∧ found.2.exit = 0 ∧
        ∀ v : UsedMethods, Prints found.2.stdout (encode v) ↔ v = ⟨[⟨1, f, "A.java"⟩]⟩) ∧
      (missing.1 = files ∧ missing.2.exit = 1 ∧
        Prints missing.2.stdout (.object [("error", .string "not found: method id 7")])) ∧
      ∃ y, FileTree.entry? ingested.1 ["x.db", "home"] = some (.database y) ∧
        y.projects = [⟨1, "demo"⟩, ⟨2, "\""⟩] ∧ ingested.2.exit = 0 ∧
        ∀ v : List Outcome,
          Prints ingested.2.stdout (encode v) ↔ v = [⟨2, .success⟩, ⟨1, .success⟩] := by
  intro f x files batches found missing ingested
  let c : Config := { database := { path := "x.db" } }
  let d : OpenDatabase := ⟨some ["x.db", "home"], false, x⟩
  have hopen : files.openDatabase c = (files, .ok d) := by decide +kernel
  have hx : Reachable d.index := Reachable.empty.run _
  have hids : NarrowIds d.index := by constructor <;> decide +kernel
  -- the arguments have the requests that they ask for
  have hline {args : List String} {r : Request} (h : parse args = .ok r) : CommandLine args r :=
    ((json_mode_faithful sayInvalid files .bytes args).1 r).1 h
  have hfound : Faithful sayInvalid files .bytes _ found.1 found.2 :=
    (json_mode_faithful sayInvalid files .bytes _).2
      ⟨none, some "x.db", true, .ask (.callees 1)⟩ (hline rfl) rfl (by decide)
  have hmissing : Faithful sayInvalid files .bytes _ missing.1 missing.2 :=
    (json_mode_faithful sayInvalid files .bytes _).2
      ⟨none, some "x.db", true, .ask (.detail 7)⟩ (hline rfl) rfl (by decide)
  have hingested : Faithful sayInvalid files (.text batches) _ ingested.1 ingested.2 :=
    (json_mode_faithful sayInvalid files (.text batches) _).2
      ⟨none, some "x.db", true, .ingest "-"⟩ (hline rfl) rfl (by decide)
  refine ⟨?_, ?_, ?_⟩
  · have hreply : Query.reply d.index (.callees 1) = .ok (UsedMethods.mk [⟨1, f, "A.java"⟩]) := by
      have hcallees : x.callees 1 = .ok [⟨1, f, "A.java"⟩] := by decide +kernel
      exact congrArg (Except.map UsedMethods.mk) hcallees
    obtain ⟨hafter, -, hreports⟩ := hfound.asked c _ files d rfl rfl hopen hx hids
    rw [hreply] at hreports
    exact ⟨hafter, hreports⟩
  · obtain ⟨hafter, -, hreports⟩ := hmissing.asked c _ files d rfl rfl hopen hx hids
    have hreply : Query.reply d.index (.detail 7) =
        (.error (.notFound "method id 7") : Except Error MethodDetail) := by
      have hdetail : x.methodDetail 7 = .error (.notFound "method id 7") := by decide +kernel
      exact hdetail
    rw [hreply] at hreports
    exact ⟨hafter, hreports⟩
  · let y : Index := { x with
      projects := [⟨1, "demo"⟩, ⟨2, "\""⟩]
      documents := x.documents ++ [⟨2, 2, "B.java"⟩] }
    have hingest : d.index.ingestJson d.refusal batches =
        (y, .ok [⟨2, 2, 0, 0, 0, 0, []⟩, ⟨1, 2, 0, 0, 0, 0, []⟩]) := by decide +kernel
    have hids' : NarrowIds y := by constructor <;> decide +kernel
    obtain ⟨-, hstores, hreports⟩ :=
      hingested.ingested c _ batches files d y _ rfl rfl rfl hopen hx hingest hids'
    exact ⟨y, hstores _ rfl, rfl, hreports⟩

end Cli

end CallIndex
