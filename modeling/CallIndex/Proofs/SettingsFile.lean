import CallIndex.Config.File
import CallIndex.Proofs.JsonMode
import CallIndex.Proofs.JsonScalar
import CallIndex.Proofs.YamlScan

/-!
# Settings files read back

The text of settings is a mapping of one key, whose value is a mapping of four keys. It is cut into tokens,
made into a document, and read as settings.

* `wholeNumber?_digits`: a number reads back if it is below the limit.
* `scan_saveChars`: **the tokens of a settings file**, whatever form the path of the database takes.
* `load_save`: **settings that are in range read back** from the text that is written of them.
-/

namespace CallIndex.Yaml

/-! ## Numbers -/

theorem digitIn?_digit {c : Char} (h : c.isDigit = true) :
    digitIn? 10 c = some (c.toNat - '0'.toNat) := by
  have hrange : '0' ≤ c ∧ c ≤ '9' := by
    simpa [Char.isDigit, Char.le_def] using h
  have hsmall : c.toNat - '0'.toNat < 10 := by
    have hle : c.toNat ≤ '9'.toNat := hrange.2
    have hnine : '9'.toNat = 57 := rfl
    have hzero : '0'.toNat = 48 := rfl
    omega
  rw [digitIn?, hexDigit?, if_pos hrange, Option.filter_some, decide_eq_true hsmall, if_pos rfl]

theorem isAllowed_of_isDigit {c : Char} (h : c.isDigit = true) : isAllowed c = true := by
  have hrange : '0' ≤ c ∧ c ≤ '9' := by
    simpa [Char.isDigit, Char.le_def] using h
  have hlow : '0'.toNat ≤ c.toNat := hrange.1
  have hhigh : c.toNat ≤ '9'.toNat := hrange.2
  have hnine : '9'.toNat = 57 := rfl
  have hzero : '0'.toNat = 48 := rfl
  simp only [isAllowed, Bool.or_eq_true, Bool.and_eq_true, beq_iff_eq, decide_eq_true_eq]
  omega

/-- Digits are read one after the other. -/
theorem foldlM_digitIn? {digits : List Char} (h : ∀ c ∈ digits, c.isDigit = true) (n : Nat) :
    digits.foldlM (fun n c => (digitIn? 10 c).map fun d => n * 10 + d) n =
      some (Nat.ofDigitChars 10 digits n) := by
  induction digits generalizing n with
  | nil => rfl
  | cons c digits ih =>
    obtain ⟨hc, hrest⟩ := List.forall_mem_cons.1 h
    rw [List.foldlM_cons, digitIn?_digit hc, Nat.ofDigitChars_cons, Nat.mul_comm 10 n]
    exact ih hrest _

theorem isDigit_of_toDigits {n : Nat} {c : Char} (h : c ∈ Nat.toDigits 10 n) : c.isDigit = true :=
  Nat.isDigit_of_mem_toDigits (by decide) (by decide) h

theorem dropSign_digits {word : List Char} (h : ∀ c ∈ word, c.isDigit = true) :
    Decimal.dropSign word = word ∧ dropPlus word = word := by
  cases word with
  | nil => exact ⟨rfl, rfl⟩
  | cons c more =>
    have hc : c.isDigit = true := h c List.mem_cons_self
    have hplus : c ≠ '+' := by
      rintro rfl
      exact absurd hc (by decide)
    have hminus : c ≠ '-' := by
      rintro rfl
      exact absurd hc (by decide)
    refine ⟨?_, ?_⟩
    · unfold Decimal.dropSign
      split
      · rename_i he
        exact absurd (List.cons.inj he).1 hminus
      · rename_i he
        exact absurd (List.cons.inj he).1 hplus
      · rfl
    · unfold dropPlus
      split
      · rename_i he
        exact absurd (List.cons.inj he).1 hplus
      · rfl

/-- No number is written with a zero in front of other digits. -/
theorem isPadded_toDigits (n : Nat) : isPadded (Nat.toDigits 10 n) = false := by
  unfold isPadded
  rw [(dropSign_digits fun c hc => isDigit_of_toDigits hc).1]
  by_cases hzero : n = 0
  · subst hzero
    rfl
  · obtain ⟨c, digits, hdigits, hc⟩ := Json.toDigits_head hzero
    rw [hdigits]
    split
    · rename_i he
      exact absurd (List.cons.inj he).1 hc
    · rfl

/-- **A number reads back** if it is below the limit. -/
theorem wholeNumber?_digits {limit n : Nat} (h : n < limit) :
    wholeNumber? limit (Nat.toDigits 10 n) = some n := by
  have hdigit : ∀ c ∈ Nat.toDigits 10 n, c.isDigit = true := fun c hc => isDigit_of_toDigits hc
  have hnumber : numberIn? 10 (Nat.toDigits 10 n) = some n := by
    have hne : (Nat.toDigits 10 n).isEmpty = false := by simp
    unfold numberIn?
    rw [hne, foldlM_digitIn? hdigit, Nat.ofDigitChars_ten_toDigits]
    rfl
  have hmark : ∀ {mark : Char} {rest : List Char}, mark.isDigit = false →
      Nat.toDigits 10 n ≠ '0' :: mark :: rest := by
    intro mark rest hmark he
    have hmem := hdigit mark (he ▸ List.mem_cons_of_mem _ List.mem_cons_self)
    rw [hmark] at hmem
    cases hmem
  unfold wholeNumber?
  rw [(dropSign_digits hdigit).2, isPadded_toDigits]
  dsimp only
  split
  · rename_i he
    exact absurd he (hmark (by decide))
  · rename_i he
    exact absurd he (hmark (by decide))
  · rename_i he
    exact absurd he (hmark (by decide))
  · simp [hnumber, h]

/-- The digits of a number are a word. -/
theorem isWord_toDigits (n : Nat) : isWord (Nat.toDigits 10 n) = true := by
  have hdigit : ∀ c ∈ Nat.toDigits 10 n, c.isDigit = true := fun c hc => isDigit_of_toDigits hc
  obtain ⟨c, digits, hdigits⟩ := List.exists_cons_of_ne_nil (Nat.toDigits_ne_nil (n := n) (b := 10))
  rw [hdigits] at hdigit ⊢
  have hall : (c :: digits).all isWordChar = true :=
    List.all_eq_true.2 fun d hd => by simp [isWordChar, hdigit d hd]
  have hfirst : c.isDigit = true := hdigit c List.mem_cons_self
  rw [isWord, hall, hfirst]
  simp

end CallIndex.Yaml

namespace CallIndex.Config

open Yaml

variable (c : Config)

/-! ## Tokens -/

/-- The digits of a number, as they stand in the file. -/
def digits (n : Nat) : String := String.ofList (Nat.toDigits 10 n)

/-- The tokens of an entry. -/
def entryTokens (key : String) (style : Style) (value : String) : List Token :=
  [.key, .scalar .plain key, .value, .scalar style value]

/-- The tokens of a settings file. The path may be written in any style. -/
def savedTokens (style : Style) : List Token :=
  [.blockMappingStart, .key, .scalar .plain "database", .value, .blockMappingStart] ++
    entryTokens "path" style c.database.path ++
    entryTokens "pool-size" .plain (digits c.database.poolSize.toNat) ++
    entryTokens "pool-min-idle" .plain (digits c.database.poolMinIdle.toNat) ++
    entryTokens "busy-timeout-ms" .plain (digits c.database.busyTimeoutMs.toNat) ++
    [.blockEnd, .blockEnd]

/-- The lines of a settings file, as the scanner meets them. -/
theorem saveChars_eq : c.saveChars = 'd' :: ("atabase".toList ++ ':' :: '\n' :: (spaces 2 ++ 'p' ::
    ("ath".toList ++ ':' :: ' ' :: (scalarLine 4 c.database.path ++ (spaces 2 ++ 'p' ::
      ("ool-size".toList ++ ':' :: ' ' :: (Nat.toDigits 10 c.database.poolSize.toNat ++ '\n' ::
        (spaces 2 ++ 'p' :: ("ool-min-idle".toList ++ ':' :: ' ' ::
          (Nat.toDigits 10 c.database.poolMinIdle.toNat ++ '\n' ::
            (spaces 2 ++ 'b' :: ("usy-timeout-ms".toList ++ ':' :: ' ' ::
              (Nat.toDigits 10 c.database.busyTimeoutMs.toNat ++ ['\n']))))))))))))) := by
  have hnumber : ∀ key n, numberLine key n = key.toList ++ ':' :: ' ' :: (Nat.toDigits 10 n ++ ['\n']) := by
    intro key n
    have hdigits : (toString n).toList = Nat.toDigits 10 n := Nat.toList_repr
    have hcolon : ": ".toList = [':', ' '] := by decide
    have hfeed : "\n".toList = ['\n'] := by decide
    simp only [numberLine, String.toList_append, hdigits, hcolon, hfeed, List.append_assoc,
      List.cons_append, List.nil_append]
  have hfront : "database:\n  path: ".toList = 'd' :: ("atabase".toList ++ ':' :: '\n' :: (spaces 2 ++
      'p' :: ("ath".toList ++ [':', ' ']))) := by decide
  have hsize : "  pool-size".toList = spaces 2 ++ 'p' :: "ool-size".toList := by decide
  have hidle : "  pool-min-idle".toList = spaces 2 ++ 'p' :: "ool-min-idle".toList := by decide
  have hbusy : "  busy-timeout-ms".toList = spaces 2 ++ 'b' :: "usy-timeout-ms".toList := by decide
  unfold saveChars
  rw [hnumber, hnumber, hnumber, hfront, hsize, hidle, hbusy]
  simp only [List.append_assoc, List.cons_append, List.nil_append]

theorem isAllowed_of_mem_numberLine {key : String} (hkey : key.toList.all isAllowed = true) {n : Nat}
    {d : Char} (h : d ∈ numberLine key n) : isAllowed d = true := by
  have hdigits : (toString n).toList = Nat.toDigits 10 n := Nat.toList_repr
  have hcolon : ∀ e ∈ ": ".toList, isAllowed e = true := List.all_eq_true.1 (by decide)
  have hfeed : ∀ e ∈ "\n".toList, isAllowed e = true := List.all_eq_true.1 (by decide)
  simp only [numberLine, String.toList_append, List.mem_append, hdigits] at h
  rcases h with ((h | h) | h) | h
  · exact List.all_eq_true.1 hkey d h
  · exact hcolon d h
  · exact isAllowed_of_isDigit (isDigit_of_toDigits h)
  · exact hfeed d h

/-- **A settings file is a text that may be cut into tokens.** -/
theorem saveChars_allowed : c.saveChars.all isAllowed = true := by
  have hfront : ∀ d ∈ "database:\n  path: ".toList, isAllowed d = true :=
    List.all_eq_true.1 (by decide)
  refine List.all_eq_true.2 fun d hd => ?_
  unfold saveChars at hd
  simp only [List.mem_append] at hd
  rcases hd with (((hd | hd) | hd) | hd) | hd
  · exact hfront d hd
  · exact isAllowed_of_mem_scalarLine hd
  · exact isAllowed_of_mem_numberLine (by decide) hd
  · exact isAllowed_of_mem_numberLine (by decide) hd
  · exact isAllowed_of_mem_numberLine (by decide) hd

/-- **The tokens of a settings file**, whatever form the path of the database takes. -/
theorem scan_saveChars : ∃ style, scan c.saveChars = some (c.savedTokens style) := by
  have hb : Scanner.Begins 'b' := ⟨by decide, by decide, by decide, by decide⟩
  have hd : Scanner.Begins 'd' := ⟨by decide, by decide, by decide, by decide⟩
  have hp : Scanner.Begins 'p' := ⟨by decide, by decide, by decide, by decide⟩
  obtain ⟨s₀, hs₀⟩ : ∃ s : Scanner, s = { rest := c.saveChars } := ⟨_, rfl⟩
  have hstart : s₀.AtLine [] [] 0 c.saveChars := by
    rw [hs₀, saveChars_eq]
    exact Scanner.atLine_start hd _
  rw [saveChars_eq] at hstart
  -- the two keys that open levels, and the path
  obtain ⟨s₁, hpasses₁, hvalue₁⟩ := hstart.key_value ('d' :: "atabase".toList) (by decide)
    (by decide) rfl (by simp)
  have hline₁ := hvalue₁.atLine (n := 2) hp
  obtain ⟨s₂, hpasses₂, hvalue₂⟩ := hline₁.key_value ('p' :: "ath".toList) (by decide)
    (by decide) rfl (by decide)
  obtain ⟨s₃, style, hpasses₃, hline₃⟩ := Scanner.AtValue.scalar 2 hvalue₂ hp
  -- the three numbers
  obtain ⟨s₄, hpasses₄, hline₄⟩ := hline₃.word_entry ('p' :: "ool-size".toList) (by decide)
    (by decide) (isWord_toDigits _) hp
  obtain ⟨s₅, hpasses₅, hline₅⟩ := hline₄.word_entry ('p' :: "ool-min-idle".toList) (by decide)
    (by decide) (isWord_toDigits _) hb
  obtain ⟨s₆, hpasses₆, hline₆⟩ := hline₅.word_entry_end ('b' :: "usy-timeout-ms".toList)
    (by decide) (by decide) (isWord_toDigits _)
  have hpasses := ((((hpasses₁.trans hpasses₂).trans hpasses₃).trans hpasses₄).trans hpasses₅).trans
    hpasses₆
  obtain ⟨last, hrun, htokens⟩ := hline₆.run_end (c.saveChars.length - 14)
  have hlength : 14 ≤ c.saveChars.length := by
    have hfront : "database:\n  path: ".toList.length = 18 := by decide
    unfold saveChars
    simp only [List.length_append, hfront]
    omega
  have hfuel : c.saveChars.length + 1 = c.saveChars.length - 14 + 1 + 14 := by omega
  have hall : Scanner.run (c.saveChars.length + 1) { rest := c.saveChars } = some last := by
    rw [hfuel, ← hs₀]
    exact (hpasses _).trans hrun
  refine ⟨style, ?_⟩
  unfold scan
  rw [if_pos c.saveChars_allowed, hall, Option.map_some, htokens]
  have hdatabase : String.ofList ('d' :: "atabase".toList) = "database" := by decide
  have hpath : String.ofList ('p' :: "ath".toList) = "path" := by decide
  have hsize : String.ofList ('p' :: "ool-size".toList) = "pool-size" := by decide
  have hidle : String.ofList ('p' :: "ool-min-idle".toList) = "pool-min-idle" := by decide
  have hbusy : String.ofList ('b' :: "usy-timeout-ms".toList) = "busy-timeout-ms" := by decide
  rw [hdatabase, hpath, hsize, hidle, hbusy]
  rfl

/-! ## Documents -/

/-- An entry of a document. -/
def entryNode (key : String) (style : Style) (value : String) : Node × Node :=
  (.scalar none .plain key, .scalar none style value)

/-- The document of a settings file. -/
def savedDocument (style : Style) : Yaml.Document where
  root := .mapping [(.scalar none .plain "database", .mapping
    [entryNode "path" style c.database.path,
      entryNode "pool-size" .plain (digits c.database.poolSize.toNat),
      entryNode "pool-min-idle" .plain (digits c.database.poolMinIdle.toNat),
      entryNode "busy-timeout-ms" .plain (digits c.database.busyTimeoutMs.toNat)])]
  anchored := []

/-- The tokens make one document, without anchors. -/
theorem ofTokens?_saved (style : Style) :
    Document.ofTokens? (c.savedTokens style) = some (c.savedDocument style) := rfl

/-! ## Settings -/

theorem number?_digits {limit n : Nat} (d : Yaml.Document) (h : n < limit)
    (hlimit : limit ≤ Nat.pow 2 64) :
    number? limit d (.scalar none .plain (digits n)) = some n := by
  have hread : wholeNumber? (Nat.pow 2 64) (digits n).toList = some n := by
    rw [digits, String.toList_ofList]
    exact wholeNumber?_digits (Nat.lt_of_lt_of_le h hlimit)
  unfold number?
  simp [Document.resolve, hread, h]

/-- **The document of a settings file gives the settings back.** -/
theorem ofDocument?_saved (style : Style) : ofDocument? (c.savedDocument style) = some c := by
  have hsize : c.database.poolSize.toNat < Nat.pow 2 32 := c.database.poolSize.toNat_lt
  have hidle : c.database.poolMinIdle.toNat < Nat.pow 2 32 := c.database.poolMinIdle.toNat_lt
  have hbusy : c.database.busyTimeoutMs.toNat < Nat.pow 2 64 := c.database.busyTimeoutMs.toNat_lt
  simp [ofDocument?, savedDocument, entries?, Document.resolve, known?, text?, field?, databaseOf?,
    entryNode, number?_digits _ hsize (by decide), number?_digits _ hidle (by decide),
    number?_digits _ hbusy (by decide), List.lookup_cons]

theorem save_ne_empty : c.save ≠ "" := by
  intro h
  have hnil := congrArg String.toList h
  rw [save, String.toList_ofList, saveChars_eq] at hnil
  cases hnil

/-- **Settings that are in range read back** from the text that is written of them, whatever text the path
of the database is. -/
theorem load_save (complaint : String → String) (path : String) (c : Config)
    (h : c.validate = .ok ()) : load complaint path (.text c.save) = .ok c := by
  obtain ⟨style, hscan⟩ := c.scan_saveChars
  have hread : (Yaml.Document.parse? c.save.toList).bind ofDocument? = some c := by
    unfold save Yaml.Document.parse?
    rw [String.toList_ofList, hscan, Option.bind_some, ofTokens?_saved, Option.bind_some,
      ofDocument?_saved]
  show parse complaint path c.save = .ok c
  unfold parse
  rw [hread]
  dsimp only
  rw [h]

end CallIndex.Config

namespace CallIndex.Cli

variable {complaint : String → String} {files after : FileTree} {stdin : Content} {r : Request}
  {c : Config}

/-! ## Runs -/

/-- Storing an index leaves every text as it is: it goes where a database is. -/
theorem storeIndex_keeps {d : OpenDatabase} {x : Index} (h : files.Stores d x) (y : Index) :
    files.Keeps (files.storeIndex d y) := by
  unfold FileTree.storeIndex
  split
  · rename_i place hplace
    split
    · exact FileTree.Keeps.refl files
    · refine FileTree.keeps_put ?_ fun s _ => ?_ <;> rw [h place hplace] <;> simp
  · exact FileTree.Keeps.refl files

theorem ask_keeps (files : FileTree) (c : Config) (q : Query) : files.Keeps (ask files c q).1 := by
  have hopened := files.openDatabase_keeps c
  unfold ask
  split <;> rename_i heq <;> rw [heq] at hopened <;> exact hopened

theorem ingest_keeps (files : FileTree) (stdin : Content) (c : Config) (file : String) :
    files.Keeps (ingest files stdin c file).1 := by
  have hopened := files.openDatabase_keeps c
  unfold ingest
  split
  · exact FileTree.Keeps.refl files
  split <;> rename_i heq <;> rw [heq] at hopened
  · exact hopened
  · exact hopened.trans (storeIndex_keeps (FileTree.openDatabase_opens heq).stores _)

theorem clear_keeps (files : FileTree) (c : Config) (confirmed : Bool) :
    files.Keeps (clear files c confirmed).1 := by
  have hopened := files.openDatabase_keeps c
  unfold clear
  split
  · split <;> rename_i heq <;> rw [heq] at hopened
    · exact hopened
    split
    · exact hopened
    · exact hopened.trans (storeIndex_keeps (FileTree.openDatabase_opens heq).stores _)
  · exact FileTree.Keeps.refl files

/-- **A run that makes no settings file keeps every text**, whether it fails or not. -/
theorem serve_keeps (complaint : String → String) (files : FileTree) (stdin : Content)
    (h : r.command.makesSettings = false) : files.Keeps (serve complaint files stdin r).1 := by
  unfold serve
  split
  · exact FileTree.Keeps.refl files
  rename_i c _
  show files.Keeps (perform files stdin r c).1
  unfold perform
  cases hcommand : r.command with
  | init force =>
    rw [hcommand] at h
    cases h
  | ask q => exact ask_keeps files c q
  | ingest file => exact ingest_keeps files stdin c file
  | clear confirmed => exact clear_keeps files c confirmed

/-- The tree that some runs leave, one after the other. -/
def afterRuns (complaint : String → String) (files : FileTree) (runs : List (Content × Request)) :
    FileTree :=
  runs.foldl (fun files run => (serve complaint files run.1 run.2).1) files

/-- **Runs that make no settings file keep every text.** -/
theorem afterRuns_keeps (complaint : String → String) {runs : List (Content × Request)}
    (h : ∀ run ∈ runs, run.2.command.makesSettings = false) (files : FileTree) :
    files.Keeps (afterRuns complaint files runs) := by
  induction runs generalizing files with
  | nil => exact FileTree.Keeps.refl files
  | cons run runs ih =>
    obtain ⟨hrun, hrest⟩ := List.forall_mem_cons.1 h
    exact (serve_keeps complaint files run.1 hrun).trans (ih hrest _)

/-- A run that made a settings file has written the settings to it, and they are in range. -/
theorem makeSettings_read {path text : String} {force : Bool}
    (h : makeSettings files c path force = (after, .ok text)) :
    c.validate = .ok () ∧ after.read (Path.ofString path) = .ok (.text c.save) := by
  unfold makeSettings at h
  split at h
  · cases h
  split at h
  · cases h
  rename_i hvalid
  split at h
  · cases h
  rename_i saved hsaved
  have hread := FileTree.save_read hsaved
  have hne := c.save_ne_empty
  have hkeeps := saved.openDatabase_keeps c
  split at h
  · cases h
  · rename_i opened d hopened
    cases h
    rw [hopened] at hkeeps
    exact ⟨hvalid, hkeeps.read hne hread⟩

theorem readSettings_of_read (complaint : String → String) {path : String} {content : Content}
    (hread : files.read (Path.ofString path) = .ok content) :
    readSettings complaint files path = Config.load complaint path content := by
  unfold readSettings
  rw [hread]
  rfl

/-- **A settings file that can be read is read by each command**, also by one that makes such a file. -/
theorem settings_of_file {path : String} {content : Content}
    (hread : files.read (Path.ofString path) = .ok content)
    (hpath : r.config.getD defaultConfigPath = path) :
    settings complaint files r = (Config.load complaint path content).map r.over := by
  have hsettings := readSettings_of_read complaint hread
  have hhas : files.has (Path.ofString path) = true := by
    unfold FileTree.has
    unfold FileTree.read at hread
    split
    · rfl
    · rename_i fault hfind
      rw [hfind] at hread
      cases hread
  have hbase : baseSettings complaint files r.config r.command.makesSettings =
      Config.load complaint path content := by
    unfold baseSettings
    cases hconfig : r.config with
    | some named =>
      rw [hconfig, Option.getD_some] at hpath
      rw [hpath]
      simp only [hhas, hsettings, Bool.not_true, Bool.and_false, Bool.false_eq_true, if_false]
    | none =>
      rw [hconfig, Option.getD_none] at hpath
      simp only [hpath, hhas, hsettings, if_true]
  rw [settings_eq, hbase]

/-- **Settings that were saved are the settings** of each command that names no database. -/
theorem settings_of_read {path : String} (hvalid : c.validate = .ok ())
    (hread : files.read (Path.ofString path) = .ok (.text c.save))
    (hpath : r.config.getD defaultConfigPath = path) (hdatabase : r.database = none) :
    settings complaint files r = .ok c := by
  have hover : r.over c = c := by
    unfold Request.over
    rw [hdatabase]
  rw [settings_of_file hread hpath, c.load_save complaint path hvalid, Except.map, hover]

/-- The settings of a request have the database that it names. -/
theorem settings_database {path : String} (h : settings complaint files r = .ok c)
    (hdatabase : r.database = some path) : c.database.path = path := by
  rw [settings_eq] at h
  obtain ⟨base, -, hover⟩ := ok_of_map r.over h
  rw [← hover, Request.over, hdatabase]

/-- A run that ends well and was to make a settings file has made one: a run that fails leaves another
exit code. -/
theorem makeSettings_of_exit {o : Output} {force : Bool} (hinit : r.command = .init force)
    (hserve : serve complaint files stdin r = (after, o)) (hexit : o.exit = 0) :
    ∃ c text, settings complaint files r = .ok c ∧
      makeSettings files c (r.config.getD defaultConfigPath) force = (after, .ok text) := by
  unfold serve at hserve
  cases hsettings : settings complaint files r with
  | error e =>
    rw [hsettings] at hserve
    cases hserve
    cases hexit
  | ok c =>
    rw [hsettings] at hserve
    unfold perform at hserve
    rw [hinit] at hserve
    cases hmade : makeSettings files c (r.config.getD defaultConfigPath) force with
    | mk made result =>
      simp only [hmade] at hserve
      cases result with
      | error e =>
        cases hserve
        cases hexit
      | ok text =>
        cases hserve
        exact ⟨c, text, rfl, hmade⟩

/-- **Settings survive being saved.** Those that are in range read back, whatever text the path of the
database is. So a run that makes a settings file leaves one that gives the same settings to every later
run, with the database that was named. -/
theorem settings_survive_save (complaint : String → String) :
    (∀ (path : String) (c : Config), c.validate = .ok () →
      Config.load complaint path (.text c.save) = .ok c) ∧
    ∀ (files after : FileTree) (stdin : Content) (r : Request) (o : Output) (force : Bool),
      r.command = .init force → serve complaint files stdin r = (after, o) → o.exit = 0 →
      ∃ c, settings complaint files r = .ok c ∧ (∀ path, r.database = some path → c.database.path = path) ∧
        ∀ runs : List (Content × Request),
          (∀ run ∈ runs, run.2.command.makesSettings = false) →
          ∀ later : Request, later.config = r.config → later.database = none →
            settings complaint (afterRuns complaint after runs) later = .ok c := by
  refine ⟨fun path c h => c.load_save complaint path h, fun files after stdin r o force hinit hserve hexit => ?_⟩
  obtain ⟨c, text, hsettings, hmade⟩ := makeSettings_of_exit hinit hserve hexit
  refine ⟨c, hsettings, fun path hpath => settings_database hsettings hpath,
    fun runs hruns later hconfig hlater => ?_⟩
  obtain ⟨hvalid, hread⟩ := makeSettings_read hmade
  have hstays := (afterRuns_keeps complaint hruns after).read c.save_ne_empty hread
  exact settings_of_read hvalid hstays (by rw [hconfig]) hlater

/-- Settings at the limits of their types, with a path of several lines that begins with a space and ends
with breaks. -/
def limitSettings : Config :=
  { database := { path := " 'a': #\u2028 \"b\"\n\n~\u2029\n", poolSize := 4294967295,
                  poolMinIdle := 4294967295, busyTimeoutMs := 18446744073709551615 } }

/-- A database whose name is no plain scalar. -/
def namedInit : Request := { database := some "a: #1", command := .init false }

theorem settings_survive_save_limits :
    Config.load sayInvalid "c.yaml" (.text limitSettings.save) = .ok limitSettings ∧
      ∃ c, c.database.path = "a: #1" ∧
        settings sayInvalid (afterRuns sayInvalid (serve sayInvalid ⟨["w"], []⟩ .bytes namedInit).1
          [(.bytes, { command := .clear true })]) { command := .ask .stats } = .ok c := by
  refine ⟨(settings_survive_save sayInvalid).1 _ _ (by decide), ?_⟩
  have hexit : (serve sayInvalid ⟨["w"], []⟩ .bytes namedInit).2.exit = 0 := by decide +kernel
  obtain ⟨c, -, hpath, hlater⟩ := (settings_survive_save sayInvalid).2 ⟨["w"], []⟩ _ .bytes namedInit
    _ false rfl rfl hexit
  exact ⟨c, hpath _ rfl, hlater _ (by decide) _ rfl rfl⟩

end CallIndex.Cli
