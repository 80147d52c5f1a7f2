import CallIndex.Files.Database

/-!
# Files that stay

Commands make directories and databases. A file that holds a text stays as it is, and the way to it stays
open.

* `FileTree.KeepsFolders`: a tree has the directories of another one. `KeepsFolders.locate`: all ways stay
  open.
* `FileTree.Keeps`: it has its texts as well. `Keeps.read`: such a text is still read at its path.
* `FileTree.openDatabase_keeps`: **opening a database keeps every text**, whether it can be opened or not.
* `FileTree.save_read`: **a text that was saved is read back.**
-/

namespace CallIndex.FileTree

variable {t u v : FileTree} {place : Place} {entry : Entry}

/-! ## Entries -/

/-- What is put at a place stands there, unless there is a directory. -/
theorem entry?_put (h : t.entry? place ≠ some .directory) :
    entry? (t.put place entry) place = some entry := by
  have hhome : ¬ place.isSuffixOf t.home = true := fun hs => h (if_pos hs)
  show (if place.isSuffixOf t.home then _ else ((place, entry) :: t.entries).lookup place) = _
  rw [if_neg hhome, List.lookup_cons_self]

/-- Nothing is put anywhere else. -/
theorem entry?_put_ne {other : Place} (h : other ≠ place) :
    entry? (t.put place entry) other = t.entry? other := by
  have hne : (other == place) = false := by simpa using h
  show (if other.isSuffixOf t.home then _ else ((place, entry) :: t.entries).lookup other) = _
  rw [List.lookup_cons, hne]
  rfl

/-- A tree has the directories of another one. -/
structure KeepsFolders (t u : FileTree) : Prop where
  home_eq : u.home = t.home
  folders : ∀ place, t.entry? place = some .directory → u.entry? place = some .directory

/-- A tree has the directories and the texts of another one. -/
structure Keeps (t u : FileTree) : Prop extends KeepsFolders t u where
  texts : ∀ place s, s ≠ "" → t.entry? place = some (.file (.text s)) →
    u.entry? place = some (.file (.text s))

theorem Keeps.refl (t : FileTree) : t.Keeps t := ⟨⟨rfl, fun _ h => h⟩, fun _ _ _ h => h⟩

theorem Keeps.trans (h : t.Keeps u) (h' : u.Keeps v) : t.Keeps v where
  home_eq := h'.home_eq.trans h.home_eq
  folders place hentry := h'.folders place (h.folders place hentry)
  texts place s hs hentry := h'.texts place s hs (h.texts place s hs hentry)

/-- No directory is lost where none stands. -/
theorem keepsFolders_put (h : t.entry? place ≠ some .directory) :
    t.KeepsFolders (t.put place entry) where
  home_eq := rfl
  folders other hother := by
    have hne : other ≠ place := fun he => h (he ▸ hother)
    rw [entry?_put_ne hne, hother]

/-- Nothing is lost where nothing stands that stays. -/
theorem keeps_put (h : t.entry? place ≠ some .directory)
    (htext : ∀ s, s ≠ "" → t.entry? place ≠ some (.file (.text s))) :
    t.Keeps (t.put place entry) where
  toKeepsFolders := keepsFolders_put h
  texts other s hs hother := by
    have hne : other ≠ place := fun he => htext s hs (he ▸ hother)
    rw [entry?_put_ne hne, hother]

/-! ## Ways -/

theorem KeepsFolders.step (h : t.KeepsFolders u) {next : Place} {name : String}
    (hstep : t.step place name = .ok next) : u.step place name = .ok next := by
  unfold FileTree.step at hstep ⊢
  split at hstep
  · cases hstep
  · rename_i hentry
    rw [h.folders place hentry]
    exact hstep
  · cases hstep

/-- **The way to a place stays open.** -/
theorem KeepsFolders.locate (h : t.KeepsFolders u) {p : Path} (hlocate : t.locate p = .ok place) :
    u.locate p = .ok place := by
  have hwalk : ∀ (names : List String) (start : Place), names.foldlM t.step start = .ok place →
      names.foldlM u.step start = .ok place := by
    intro names
    induction names with
    | nil => exact fun _ hw => hw
    | cons name names ih =>
      intro start hw
      rw [List.foldlM_cons] at hw ⊢
      cases hstep : t.step start name with
      | error fault =>
        rw [hstep] at hw
        cases hw
      | ok next =>
        rw [hstep] at hw
        rw [h.step hstep]
        exact ih next hw
  unfold FileTree.locate at hlocate ⊢
  cases hcheck : checkPath p with
  | error fault =>
    rw [hcheck] at hlocate
    cases hlocate
  | ok =>
    rw [hcheck] at hlocate
    simp only [bind, Except.bind] at hlocate ⊢
    split at hlocate
    · cases hlocate
    · rename_i hempty
      rw [if_neg hempty, h.home_eq]
      exact hwalk p.names _ hlocate

/-- **A text is read where the path leads to its file.** -/
theorem read_text_iff {p : Path} {s : String} : t.read p = .ok (.text s) ↔
    ∃ place, t.locate p = .ok place ∧ t.entry? place = some (.file (.text s)) ∧ p.slash = false := by
  unfold read find
  cases hlocate : t.locate p with
  | error fault => simp [bind, Except.bind]
  | ok place =>
    simp only [bind, Except.bind, Except.ok.injEq, exists_eq_left']
    cases hentry : t.entry? place with
    | none => simp
    | some entry =>
      cases entry with
      | directory => simp
      | file content => cases hslash : p.slash <;> simp
      | database index => cases hslash : p.slash <;> simp

/-- **A text is still read at its path.** -/
theorem Keeps.read (h : t.Keeps u) {p : Path} {s : String} (hs : s ≠ "")
    (hread : t.read p = .ok (.text s)) : u.read p = .ok (.text s) := by
  obtain ⟨place, hlocate, hentry, hslash⟩ := read_text_iff.1 hread
  exact read_text_iff.2 ⟨place, h.locate hlocate, h.texts place s hs hentry, hslash⟩

/-- **A text that was saved is read back.** -/
theorem save_read {p : Path} {s : String} (h : t.save p (.text s) = (u, .ok ())) :
    u.read p = .ok (.text s) := by
  unfold save at h
  split at h
  · cases h
  · rename_i made _
    split at h
    · rename_i written hwrite
      cases h
      unfold write at hwrite
      cases hlocate : made.locate p with
      | error fault =>
        rw [hlocate] at hwrite
        cases hwrite
      | ok place =>
        rw [hlocate] at hwrite
        simp only [bind, Except.bind] at hwrite
        split at hwrite
        · cases hwrite
        · rename_i hfile
          simp only [Bool.or_eq_true, decide_eq_true_eq, not_or, Bool.not_eq_true] at hfile
          cases hwrite
          exact read_text_iff.2 ⟨place, (keepsFolders_put hfile.2).locate hlocate,
            entry?_put hfile.2, hfile.1⟩
    · cases h

/-! ## Databases -/

/-- Directories are made where nothing stands. -/
theorem makeAlong_keeps (names : List String) (start : Place) (t : FileTree) :
    t.Keeps (makeAlong start names t).1 := by
  induction names generalizing start t with
  | nil => exact Keeps.refl t
  | cons name names ih =>
    rw [makeAlong]
    split
    · exact Keeps.refl t
    · rename_i next _
      split
      · rename_i hnone
        have hput : t.Keeps (t.put next .directory) :=
          keeps_put (by rw [hnone]; simp) (fun s _ => by rw [hnone]; simp)
        exact hput.trans (ih next _)
      · exact ih next t
      · exact Keeps.refl t

theorem makeFolders_keeps (t : FileTree) (p : Path) : t.Keeps (t.makeFolders p).1 := by
  unfold makeFolders
  split
  · exact Keeps.refl t
  · exact makeAlong_keeps _ _ t

/-- What stands where a database is made: nothing, or an empty file. -/
def IsFree (t : FileTree) (place : Place) : Prop :=
  t.entry? place = none ∨ t.entry? place = some (.file (.text ""))

theorem IsFree.keeps_put (h : t.IsFree place) : t.Keeps (t.put place entry) := by
  refine FileTree.keeps_put ?_ fun s hs => ?_
  · rcases h with h | h <;> rw [h] <;> simp
  · rcases h with h | h <;> rw [h]
    · simp
    · simpa using Ne.symm hs

theorem makeTables_keeps (h : t.IsFree place) (d : DatabaseName) :
    t.Keeps (t.makeTables d place).1 := by
  have htouch : t.Keeps (t.touch place) ∧ (t.touch place).IsFree place := by
    unfold touch
    split
    · exact ⟨Keeps.refl t, h⟩
    · rename_i hnone
      have hnone' : t.entry? place = none := by simpa using hnone
      refine ⟨h.keeps_put, Or.inr (entry?_put ?_)⟩
      rw [hnone']
      simp
  unfold makeTables
  dsimp only
  split
  · exact htouch.1
  split
  · exact htouch.1
  split
  · exact htouch.1
  · exact htouch.1.trans htouch.2.keeps_put

theorem openAt_keeps (t : FileTree) (d : DatabaseName) (name : String) (place : Place) :
    t.Keeps (t.openAt d name place).1 := by
  unfold openAt
  split
  · rename_i hnone
    split
    · exact makeTables_keeps (Or.inl hnone) d
    · exact Keeps.refl t
  · exact Keeps.refl t
  · rename_i hempty
    exact makeTables_keeps (Or.inr hempty) d
  · exact Keeps.refl t
  · exact Keeps.refl t

/-- **Opening a database keeps every text**, whether it can be opened or not. -/
theorem openDatabase_keeps (t : FileTree) (c : Config) : t.Keeps (t.openDatabase c).1 := by
  unfold openDatabase
  split
  · exact Keeps.refl t
  have hmade := makeFolders_keeps t (Path.ofString c.database.path)
  split
  · rename_i made _ hfault
    rwa [hfault] at hmade
  · rename_i made hok
    rw [hok] at hmade
    refine hmade.trans ?_
    unfold openNamed
    split
    · exact Keeps.refl made
    split
    · exact Keeps.refl made
    split
    · exact Keeps.refl made
    split
    · exact Keeps.refl made
    · exact openAt_keeps made _ _ _

end CallIndex.FileTree
