import CallIndex.Proofs.ReplacedFiles
import Mathlib.Data.List.TakeWhile

/-!
# Databases that are opened

Settings name a database by its path. What is opened for them is the database at the place of this path,
with the index that it had, and its file goes on to hold this index.

* `FileTree.Stores`: the file of an open database holds an index. It does after an index was stored in it
  (`storeIndex_stores`).
* `FileTree.IsPlain`: a path that is no address and does not stand for memory.
* `FileTree.Opens`: what is opened for a path.
* `openDatabase_opens`: **what is opened is the database that the settings name.**
* `FileTree.Holds`, `openDatabase_of_holds`: a database that stands there is opened.
-/

namespace CallIndex.FileTree

variable {t opened : FileTree} {d : OpenDatabase} {x : Index} {place : Place} {path : String}

/-- The file of an open database holds an index. A database in memory has no file. -/
def Stores (t : FileTree) (d : OpenDatabase) (x : Index) : Prop :=
  ∀ place, d.place = some place → t.entry? place = some (.database x)

/-- An index that is stored is there afterwards, if a database that may only be read is left as it is. -/
theorem storeIndex_stores {y : Index} (h : t.Stores d x) (hread : d.readOnly = true → y = x) :
    (t.storeIndex d y).Stores d y := by
  intro place hplace
  unfold storeIndex
  rw [hplace]
  simp only
  split
  · rename_i hreadOnly
    rw [hread hreadOnly]
    exact h place hplace
  · exact entry?_put (by rw [h place hplace]; exact fun h => nomatch h)

/-! ## What a path names -/

/-- A path that is no address, and does not stand for memory. -/
def IsPlain (path : String) : Prop := ¬ "file:".toList <+: path.toList ∧ path ≠ ":memory:"

/-- An open database is the one that a path names: the one at the place of a plain path, with the index that
it had, or with an empty one where none was. Its file holds the index. -/
structure Opens (t : FileTree) (path : String) (opened : FileTree) (d : OpenDatabase) : Prop where
  place : IsPlain path → d.place = some ((Path.ofString path).place t.home)
  kept : ∀ place x, d.place = some place → t.entry? place = some (.database x) → d.index = x
  made : (∀ place x, d.place = some place → t.entry? place ≠ some (.database x)) → d.index = .empty
  stores : opened.Stores d d.index

theorem ofString_plain (h : IsPlain path) (hne : path ≠ "") :
    DatabaseName.ofString path = .ok ⟨some (Path.ofString path), .create, false⟩ := by
  unfold DatabaseName.ofString
  split
  · rename_i rest haddress
    exact absurd ⟨rest, haddress.symm⟩ h.1
  · rw [DatabaseName.atPath, if_neg (by simp [hne, h.2])]

theorem resolve_place {p : Path} (h : t.resolve p = some place) : place = p.place t.home := by
  have hwalk : ∀ (names : List String) (start : Place), names.foldlM t.resolveStep start = some place →
      names.foldl Path.enter start = place := by
    intro names
    induction names with
    | nil => exact fun _ h => Option.some.inj h
    | cons name names ih =>
      intro start h
      obtain ⟨next, hnext, h⟩ := Option.bind_eq_some_iff.1 h
      unfold resolveStep at hnext
      dsimp only at hnext
      split at hnext
      · cases hnext
        exact ih _ h
      · cases hnext
  unfold resolve at h
  obtain ⟨last, hlast, h⟩ := Option.bind_eq_some_iff.1 h
  split at h
  · cases h
    exact (hwalk _ _ hlast).symm
  · cases h

/-! ## What is opened -/

/-- Databases are neither made nor lost where directories are made. -/
theorem makeAlong_database (names : List String) (start place : Place) (t : FileTree) :
    entry? (makeAlong start names t).1 place = some (.database x) ↔
      t.entry? place = some (.database x) := by
  induction names generalizing start t with
  | nil => rfl
  | cons name names ih =>
    rw [makeAlong]
    split
    · rfl
    · rename_i next _
      split
      · rename_i hnone
        rw [ih]
        by_cases hplace : place = next
        · rw [hplace, entry?_put (by rw [hnone]; simp), hnone]
          simp
        · rw [entry?_put_ne hplace]
      · exact ih next t
      · rfl

theorem makeFolders_database (t : FileTree) (p : Path) (place : Place) :
    entry? (t.makeFolders p).1 place = some (.database x) ↔ t.entry? place = some (.database x) := by
  unfold makeFolders
  split
  · rfl
  · exact makeAlong_database _ _ _ _

/-- A database that is made is empty, and its file holds the empty index. -/
theorem makeTables_made {name : DatabaseName} (hplace : t.entry? place ≠ some .directory)
    (h : t.makeTables name place = (opened, .ok d)) :
    d = ⟨some place, false, .empty⟩ ∧ opened.Stores d .empty := by
  have htouch : entry? (t.touch place) place ≠ some .directory := by
    unfold touch
    split
    · exact hplace
    · rw [entry?_put hplace]
      exact fun h => nomatch h
  unfold makeTables at h
  simp only at h
  split at h
  · cases h
  split at h
  · cases h
  split at h
  · cases h
  · cases h
    refine ⟨rfl, ?_⟩
    rintro _ ⟨⟩
    exact entry?_put htouch

theorem openAt_index {name : DatabaseName} {text : String}
    (h : t.openAt name text place = (opened, .ok d)) : d.place = some place ∧
      opened.Stores d d.index ∧ (t.entry? place = some (.database d.index) ∨
        (∀ x, t.entry? place ≠ some (.database x)) ∧ d.index = .empty) := by
  unfold openAt at h
  split at h
  · rename_i hnone
    split at h
    · obtain ⟨rfl, hstores⟩ := makeTables_made (by simp [hnone]) h
      exact ⟨rfl, hstores, .inr ⟨by simp [hnone], rfl⟩⟩
    · cases h
  · cases h
  · rename_i hempty
    obtain ⟨rfl, hstores⟩ := makeTables_made (by simp [hempty]) h
    exact ⟨rfl, hstores, .inr ⟨by simp [hempty], rfl⟩⟩
  · cases h
  · rename_i index hindex
    cases h
    refine ⟨rfl, ?_, .inl hindex⟩
    rintro _ ⟨⟩
    exact hindex

theorem openNamed_opens (hne : path ≠ "") (h : t.openNamed path = (opened, .ok d)) :
    t.Opens path opened d := by
  unfold openNamed at h
  split at h
  · cases h
  split at h
  · cases h
  rename_i name hname
  split at h
  · -- in memory
    rename_i hmemory
    have hplain : ¬ IsPlain path := by
      intro hplain
      rw [ofString_plain hplain hne] at hname
      cases hname
      cases hmemory
    split at h <;> cases h
    exact ⟨fun h => absurd h hplain, fun _ _ h => (nomatch h), fun _ => rfl, fun _ h => (nomatch h)⟩
  rename_i p hpath
  split at h
  · cases h
  rename_i place hresolve
  obtain ⟨hplace, hstores, hindex⟩ := openAt_index h
  refine ⟨fun hplain => ?_, fun place' x hsome hx => ?_, fun hnone => ?_, hstores⟩
  · rw [ofString_plain hplain hne] at hname
    cases hname
    cases hpath
    rw [hplace, resolve_place hresolve]
  · obtain rfl : place = place' := Option.some.inj (hplace.symm.trans hsome)
    rcases hindex with hindex | ⟨hnone, -⟩
    · rw [hx] at hindex
      cases hindex
      rfl
    · exact absurd hx (hnone x)
  · rcases hindex with hindex | ⟨-, hempty⟩
    · exact absurd hindex (hnone place _ hplace)
    · exact hempty

theorem ne_empty_of_valid {c : Config} (h : c.validate = .ok ()) : c.database.path ≠ "" := by
  intro hempty
  simp [Config.validate, Config.problem?, hempty] at h

/-- **What is opened is the database that the settings name.** -/
theorem openDatabase_opens {c : Config} (h : t.openDatabase c = (opened, .ok d)) :
    t.Opens c.database.path opened d := by
  unfold openDatabase at h
  split at h
  · cases h
  rename_i hvalid
  -- the directories on the way are made first
  have hhome := (makeFolders_keeps t (Path.ofString c.database.path)).home_eq
  have hdatabase (place : Place) (x : Index) :=
    makeFolders_database (x := x) t (Path.ofString c.database.path) place
  split at h
  · cases h
  rename_i made hfolders
  rw [hfolders] at hhome
  simp only [hfolders] at hdatabase
  have hopens := openNamed_opens (ne_empty_of_valid hvalid) h
  exact
    { place := fun hplain => by rw [hopens.place hplain, hhome]
      kept := fun place x hplace hx => hopens.kept place x hplace ((hdatabase place x).2 hx)
      made := fun hnone => hopens.made fun place x hplace hx =>
        hnone place x hplace ((hdatabase place x).1 hx)
      stores := hopens.stores }

/-- The database that settings name by a plain path stands at its place with an index, and the way there
can be gone: by names as they are written, and by the shorter ones that a database can have. -/
structure Holds (t : FileTree) (c : Config) (place : Place) (x : Index) : Prop where
  valid : c.validate = .ok ()
  plain : IsPlain c.database.path
  text : '\x00' ∉ c.database.path.toList
  located : t.locate (Path.ofString c.database.path) = .ok place
  resolved : t.resolve (Path.ofString c.database.path) = some place
  database : t.entry? place = some (.database x)

theorem zeroAt?_eq_none (h : '\x00' ∉ path.toList) : zeroAt? path = none := by
  have hall : path.toList.takeWhile (· ≠ '\x00') = path.toList := by
    rw [List.takeWhile_eq_self_iff]
    intro c hc
    simpa using ne_of_mem_of_not_mem hc h
  unfold zeroAt?
  rw [hall]
  simp

/-- **A database that stands where the settings say is opened**, and nothing is changed by that. -/
theorem openDatabase_of_holds {c : Config} (h : t.Holds c place x) :
    t.openDatabase c = (t, .ok ⟨some place, false, x⟩) := by
  unfold openDatabase
  rw [h.valid]
  dsimp only
  rw [makeFolders_of_locate h.located]
  dsimp only
  unfold openNamed
  rw [zeroAt?_eq_none h.text]
  dsimp only
  rw [ofString_plain h.plain (ne_empty_of_valid h.valid)]
  dsimp only
  rw [h.resolved]
  dsimp only
  unfold openAt
  rw [h.database]
  rfl

end CallIndex.FileTree
