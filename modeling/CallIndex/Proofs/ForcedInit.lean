import CallIndex.Proofs.ReplacedFiles
import CallIndex.Proofs.SettingsFile

/-!
# Settings files made anew

A forced run replaces a settings file. It has its settings from where every run has them, and this is the
file that it replaces. So a file that gives no settings stops the run, and one that gives settings hands
them on to the new file.

* `FileTree.withSettings`: the tree with the file replaced.
* `makeSettings_forced`: what a forced run does to a file that can be read.
* `forced_init_recovers_iff`: **the new file has the usual settings only if the old one gave them**, up to
  the database that is named.
* `old_settings_matter`: a file that stops the run, and one that is handed on.
-/

namespace CallIndex

/-- The tree with settings written to a path. -/
def FileTree.withSettings (files : FileTree) (path : String) (c : Config) : FileTree :=
  (files.save (Path.ofString path) (.text c.save)).1

/-- Whether the database of some settings can be opened, or made, once they are written to a path. -/
def FileTree.canCreate (files : FileTree) (path : String) (c : Config) : Bool :=
  ((files.withSettings path c).openDatabase c).2.isOk

theorem Config.valid_of_load {complaint : String → String} {path s : String} {c : Config}
    (h : load complaint path (.text s) = .ok c) : c.validate = .ok () := by
  unfold load parse at h
  dsimp only at h
  split at h
  · cases h
  · split at h
    · rename_i hvalid
      cases h
      exact hvalid
    · cases h

namespace Cli

variable {complaint : String → String} {files : FileTree} {args : List String} {r : Request}
  {c : Config} {path old : String}

/-- Settings in range stay in range with the database that a request names. -/
theorem Request.valid_over (h : c.validate = .ok ()) (hdatabase : r.database ≠ some "") :
    (r.over c).validate = .ok () := by
  unfold Request.over
  cases hnamed : r.database with
  | none => exact h
  | some path =>
    have hpath : path ≠ "" := fun he => hdatabase (by rw [hnamed, he])
    have hown : c.database.path ≠ "" := by
      intro he
      unfold Config.validate Config.problem? at h
      dsimp only at h
      rw [if_pos he] at h
      cases h
    have hsame : Config.problem? { c with database := { c.database with path } } = c.problem? := by
      unfold Config.problem?
      dsimp only
      rw [if_neg hpath, if_neg hown]
    unfold Config.validate at h ⊢
    rw [hsame]
    exact h

/-- **A forced run replaces a file that can be read**, and then opens the database. -/
theorem makeSettings_forced (hvalid : c.validate = .ok ())
    (hold : files.read (Path.ofString path) = .ok (.text old)) :
    makeSettings files c path true =
      Prod.map id (Except.map fun _ => initText path c.database.path)
        ((files.withSettings path c).openDatabase c) := by
  obtain ⟨place, -, hsave⟩ := FileTree.save_of_read hold (.text c.save)
  unfold makeSettings FileTree.withSettings
  rw [hvalid, hsave, Bool.not_true, Bool.and_false, if_neg Bool.false_ne_true]
  dsimp only
  rcases (files.put place (.file (.text c.save))).openDatabase c with ⟨opened, _ | d⟩ <;> rfl

/-- The settings are read back after the database is opened, or cannot be. -/
theorem readSettings_opened (complaint : String → String) (hvalid : c.validate = .ok ())
    (hold : files.read (Path.ofString path) = .ok (.text old)) :
    readSettings complaint ((files.withSettings path c).openDatabase c).1 path = .ok c := by
  obtain ⟨place, -, hsave⟩ := FileTree.save_of_read hold (.text c.save)
  have hread : (files.withSettings path c).read (Path.ofString path) = .ok (.text c.save) := by
    unfold FileTree.withSettings
    rw [hsave]
    exact FileTree.save_read hsave
  have hkeeps := (files.withSettings path c).openDatabase_keeps c
  rw [readSettings_of_read complaint (hkeeps.read c.save_ne_empty hread),
    c.load_save complaint path hvalid]

/-- A text that gives no settings is an error of the settings. -/
theorem config_of_load {e : Error} (h : Config.load complaint path (.text old) = .error e) :
    ∃ problem, e = .config problem := by
  unfold Config.load Config.parse at h
  dsimp only at h
  split at h
  · cases h
    exact ⟨_, rfl⟩
  · rename_i c _
    unfold Config.validate at h
    cases hproblem : c.problem? with
    | none =>
      rw [hproblem] at h
      cases h
    | some problem =>
      rw [hproblem] at h
      cases h
      exact ⟨problem, rfl⟩

theorem initText_eq (path database : String) :
    initText path database = "Wrote " ++ path ++ "\nDatabase " ++ database ++ "\n" := by
  rw [← String.toList_inj]
  simp [initText, textOf]

theorem errorText_config (problem : String) :
    errorText (.config problem) = "error: configuration error: " ++ problem ++ "\n" := by
  have hjoin (line : String) : textOf [line] = line ++ "\n" := by
    rw [textOf, List.map_singleton, String.join_cons, String.join_nil, String.append_empty]
  calc errorText (.config problem)
      = "error: " ++ ("configuration error: " ++ problem) ++ "\n" := hjoin _
    _ = "error: configuration error: " ++ problem ++ "\n" := by
        rw [← String.append_assoc]
        rfl

/-- **A forced run recovers the usual settings only where they are already.** It reads the file that it is
to replace, at the usual path or at the one that is named.

* If that text gives no settings, the run ends with the error of the text and changes nothing.
* If it gives settings, these are written back, with the database that is named.
* So, where a database can be made, the run ends well and leaves the usual settings with the database that
  is named exactly if the old text gave these. -/
theorem forced_init_recovers_iff (complaint : String → String) (stdin : Content)
    (hline : CommandLine args r) (hinit : r.command = .init true) (hdatabase : r.database ≠ some "")
    (hpath : r.config.getD defaultConfigPath = path)
    (hold : files.read (Path.ofString path) = .ok (.text old)) :
    (∀ e, Config.load complaint path (.text old) = .error e →
      ∃ problem, e = .config problem ∧ run complaint files stdin args =
        (files, ⟨1, if r.json then failure e else "",
          "error: configuration error: " ++ problem ++ "\n"⟩)) ∧
    (∀ c, Config.load complaint path (.text old) = .ok c →
      run complaint files stdin args = Prod.map id
          (fun
            | .ok _ => ⟨0, "Wrote " ++ path ++ "\nDatabase " ++ (r.over c).database.path ++ "\n", ""⟩
            | .error e => outcome r.json (.error e))
          ((files.withSettings path (r.over c)).openDatabase (r.over c)) ∧
        readSettings complaint (run complaint files stdin args).1 path = .ok (r.over c)) ∧
    (files.canCreate path (r.over .default) = true →
      ((run complaint files stdin args).2.exit = 0 ∧
          readSettings complaint (run complaint files stdin args).1 path = .ok (r.over .default) ↔
        ∃ c, Config.load complaint path (.text old) = .ok c ∧ r.over c = r.over .default)) := by
  have hserve : run complaint files stdin args = serve complaint files stdin r := by
    unfold run
    rw [parse_iff.2 hline]
  have hsettings : settings complaint files r =
      (Config.load complaint path (.text old)).map r.over := settings_of_file hold hpath
  have hblocked : ∀ e, Config.load complaint path (.text old) = .error e →
      ∃ problem, e = .config problem ∧ run complaint files stdin args =
        (files, ⟨1, if r.json then failure e else "",
          "error: configuration error: " ++ problem ++ "\n"⟩) := by
    intro e he
    rw [he] at hsettings
    obtain ⟨problem, rfl⟩ := config_of_load he
    refine ⟨problem, rfl, ?_⟩
    rw [hserve, serve_error hsettings]
    rw [← errorText_config]
    rfl
  have hhanded : ∀ c, Config.load complaint path (.text old) = .ok c →
      run complaint files stdin args = Prod.map id
        (fun
          | .ok _ => ⟨0, "Wrote " ++ path ++ "\nDatabase " ++ (r.over c).database.path ++ "\n", ""⟩
          | .error e => outcome r.json (.error e))
        ((files.withSettings path (r.over c)).openDatabase (r.over c)) := by
    intro c hc
    rw [hc] at hsettings
    have hvalid := Request.valid_over (Config.valid_of_load hc) hdatabase
    rw [hserve]
    unfold serve perform
    rw [hsettings, hinit, hpath]
    dsimp only [Except.map]
    rw [makeSettings_forced hvalid hold, ← initText_eq]
    generalize initText path (r.over c).database.path = text
    rcases (files.withSettings path (r.over c)).openDatabase (r.over c) with ⟨opened, _ | d⟩ <;> rfl
  have hleft : ∀ c, Config.load complaint path (.text old) = .ok c →
      readSettings complaint (run complaint files stdin args).1 path = .ok (r.over c) := by
    intro c hc
    rw [hhanded c hc]
    exact readSettings_opened complaint (Request.valid_over (Config.valid_of_load hc) hdatabase) hold
  refine ⟨hblocked, fun c hc => ⟨hhanded c hc, hleft c hc⟩, fun hcreate => ⟨?_, ?_⟩⟩
  · -- a run that ends well had settings to write, and the new file gives these
    rintro ⟨hexit, hread⟩
    cases hload : Config.load complaint path (.text old) with
    | error e =>
      obtain ⟨_, -, hrun⟩ := hblocked e hload
      rw [hrun] at hexit
      cases hexit
    | ok c =>
      rw [hleft c hload] at hread
      exact ⟨c, rfl, Except.ok.inj hread⟩
  · rintro ⟨c, hc, hsame⟩
    refine ⟨?_, hsame ▸ hleft c hc⟩
    rw [hhanded c hc, hsame]
    unfold FileTree.canCreate at hcreate
    rcases hopened : (files.withSettings path (r.over .default)).openDatabase (r.over .default) with
      ⟨opened, _ | d⟩
    · rw [hopened] at hcreate
      cases hcreate
    · rfl

/-- A project that has a settings file at the usual path. -/
def projectWith (text : String) : FileTree where
  home := ["project"]
  entries := [(["config.yaml", ".docgraph", "project"], .file (.text text)),
    ([".docgraph", "project"], .directory)]

/-- Some settings, in no block of the usual form. -/
def terseText : String := "database: \x7bpath: old.db, pool-size: 8\x7d\n"

theorem forced_init_recovers_iff_named :
    let after := run sayInvalid (projectWith terseText) .bytes ["init", "--force", "--db", "new.db"]
    after.2.exit = 0 ∧
      readSettings sayInvalid after.1 defaultConfigPath = .ok { database := { path := "new.db" } } := by
  have hparse : parse ["init", "--force", "--db", "new.db"] =
      .ok { database := some "new.db", command := .init true } := by decide +kernel
  have hold : (projectWith terseText).read (Path.ofString defaultConfigPath) =
      .ok (.text terseText) := by decide +kernel
  have hload : Config.load sayInvalid defaultConfigPath (.text terseText) =
      .ok { database := { path := "old.db" } } := by decide +kernel
  obtain ⟨-, -, hrecovers⟩ :=
    forced_init_recovers_iff sayInvalid .bytes (parse_iff.1 hparse) rfl (by decide) rfl hold
  exact (hrecovers (by decide +kernel)).2 ⟨_, hload, rfl⟩

/-- **A forced run does not recover everything.** A file with a setting that is out of range stops it, and a
setting that is not the usual one is handed on, where a database can be made in both cases. -/
theorem old_settings_matter :
    let closed := projectWith "database:\n  pool-size: 0\n"
    let narrow := projectWith "database:\n  pool-size: 3\n"
    closed.canCreate defaultConfigPath .default = true ∧
      (run sayInvalid closed .bytes ["init", "--force"]).2.exit = 1 ∧
      (run sayInvalid closed .bytes ["init", "--force"]).1 = closed ∧
      narrow.canCreate defaultConfigPath .default = true ∧
      (run sayInvalid narrow .bytes ["init", "--force"]).2.exit = 0 ∧
      readSettings sayInvalid (run sayInvalid narrow .bytes ["init", "--force"]).1 defaultConfigPath =
        .ok { database := { poolSize := 3 } } ∧
      ({ database := { poolSize := 3 } } : Config) ≠ .default := by
  decide +kernel

end Cli

end CallIndex
