import CallIndex.Proofs.StoredFiles
import CallIndex.Proofs.Written
import Mathlib.Data.String.Basic

/-!
# Files that are replaced

A text is saved at a path after the directories that the path lies in are made. Where a text can be read,
none of them is missing, and their path is no longer than the one that was read.

* `Path.bytes_folder`: **what a path lies in is no longer than the path.**
* `FileTree.makeAlong_walk`: where a way can be gone to its end, no directory is missing.
* `FileTree.save_of_read`: **a text that can be read can be replaced**, and nothing else is changed.
-/

namespace CallIndex

open String (utf8Len)

/-! ## Lengths of paths -/

namespace Path

/-- The bytes of names, each with a separator. -/
def nameBytes (names : List String) : Nat :=
  names.foldr (fun name bytes => 1 + name.utf8ByteSize + bytes) 0

@[simp] theorem nameBytes_nil : nameBytes [] = 0 := rfl

@[simp] theorem nameBytes_cons (name : String) (names : List String) :
    nameBytes (name :: names) = 1 + name.utf8ByteSize + nameBytes names := rfl

theorem bytes_ofNames (absolute : Bool) (names : List String) :
    (ofNames absolute names).bytes = nameBytes names - if absolute then 0 else 1 := by
  cases absolute <;> rfl

theorem nameBytes_append (names more : List String) :
    nameBytes (names ++ more) = nameBytes names + nameBytes more := by
  induction names with
  | nil => simp
  | cons name names ih =>
    rw [List.cons_append, nameBytes_cons, nameBytes_cons, ih]
    omega

theorem nameBytes_sublist {names more : List String} (h : names.Sublist more) :
    nameBytes names ≤ nameBytes more := by
  induction h with
  | slnil => exact Nat.le_refl 0
  | cons name _ ih =>
    rw [nameBytes_cons]
    omega
  | cons_cons name _ ih =>
    rw [nameBytes_cons, nameBytes_cons]
    omega

/-- The pieces of a text, each with a separator, are one byte longer than the text. -/
theorem nameBytes_splitFrom (piece l : List Char) :
    nameBytes ((splitFrom '/' piece l).map String.ofList) = 1 + utf8Len piece + utf8Len l := by
  have hslash : Char.utf8Size '/' = 1 := by decide
  induction l generalizing piece with
  | nil => simp [splitFrom, String.utf8ByteSize_ofList]
  | cons c l ih =>
    rw [splitFrom]
    split
    · rename_i hc
      subst hc
      rw [List.map_cons, nameBytes_cons, ih, String.utf8ByteSize_ofList, String.utf8Len_reverse,
        String.utf8Len_nil, String.utf8Len_cons, hslash]
      omega
    · simp only [ih, String.utf8Len_cons]
      omega

/-- The names of a path are at most one byte longer than its text, with their separators. -/
theorem nameBytes_names (s : String) :
    nameBytes (ofString s).names ≤ 1 + (ofString s).bytes := by
  have hpieces := nameBytes_splitFrom [] s.toList
  have hkept : nameBytes (ofString s).names ≤
      nameBytes ((splitFrom '/' [] s.toList).map String.ofList) :=
    nameBytes_sublist (List.filter_sublist.map String.ofList)
  have hbytes : utf8Len s.toList = (ofString s).bytes := by
    rw [ofString, ← String.utf8ByteSize_ofList, String.ofList_toList]
  rw [String.utf8Len_nil] at hpieces
  omega

/-- The names that count are names of the path. -/
theorem components_sublist (p : Path) : p.components.Sublist p.names := by
  unfold components
  split
  · rename_i hnil
    rw [hnil]
  · rename_i name rest hcons
    rw [hcons]
    split
    · exact List.filter_sublist.cons_cons name
    · exact List.filter_sublist

/-- **What a path lies in is no longer than the path.** -/
theorem bytes_folder (s : String) (absolute : Bool) :
    (ofNames absolute (ofString s).folder).bytes ≤ (ofString s).bytes := by
  have hnames := nameBytes_names s
  have hcomponents := nameBytes_sublist (ofString s).components_sublist
  have hfolder : nameBytes (ofString s).folder ≤ nameBytes (ofString s).components - 1 := by
    unfold folder
    rcases List.eq_nil_or_concat (ofString s).components with hnil | ⟨front, last, hlast⟩
    · rw [hnil]
      exact Nat.zero_le _
    · rw [hlast, List.concat_eq_append, List.dropLast_concat, nameBytes_append, nameBytes_cons,
        nameBytes_nil]
      omega
  rw [bytes_ofNames]
  omega

end Path

/-! ## Ways to a file -/

namespace FileTree

variable {t : FileTree} {place : Place}

theorem checkPath_ok_iff {p : Path} : checkPath p = .ok () ↔
    (∀ name ∈ p.names, name.toList.contains '\x00' = false) ∧ p.bytes ≤ maxPath := by
  unfold checkPath
  split
  · rename_i hzero
    simp only [List.any_eq_true] at hzero
    obtain ⟨name, hname, hzero⟩ := hzero
    simp only [reduceCtorEq, false_iff, not_and]
    intro hnone
    rw [hnone name hname] at hzero
    cases hzero
  · rename_i hzero
    have hnone : ∀ name ∈ p.names, name.toList.contains '\x00' = false := by
      simpa only [List.any_eq_true, not_exists, not_and, Bool.not_eq_true] using hzero
    split
    · rename_i hlong
      simp only [reduceCtorEq, false_iff, not_and]
      omega
    · rename_i hshort
      exact ⟨fun _ => ⟨hnone, by omega⟩, fun _ => rfl⟩

/-- What a path lies in can be used if the path can. -/
theorem checkPath_folder {s : String} (h : checkPath (Path.ofString s) = .ok ()) :
    checkPath (Path.ofNames (Path.ofString s).absolute (Path.ofString s).folder) = .ok () := by
  obtain ⟨hzero, hbytes⟩ := checkPath_ok_iff.1 h
  refine checkPath_ok_iff.2 ⟨fun name hname => hzero name ?_, (Path.bytes_folder s _).trans hbytes⟩
  exact (Path.components_sublist _).subset (List.dropLast_subset _ hname)

/-- A step starts at a directory. -/
theorem directory_of_step {start next : Place} {name : String} (h : t.step start name = .ok next) :
    t.entry? start = some .directory ∧ next = Path.enter start name := by
  unfold step at h
  split at h
  · cases h
  · rename_i hentry
    split at h
    · cases h
    · cases h
      exact ⟨hentry, rfl⟩
  · cases h

/-- One step of the making of directories, where one stands. -/
theorem makeAlong_step {start next : Place} {name : String} {names : List String}
    (h : t.step start name = .ok next) (hnext : t.entry? next = some .directory) :
    makeAlong start (name :: names) t = makeAlong next names t := by
  rw [makeAlong, h]
  dsimp only
  rw [hnext]

/-- The way that is left after a step. -/
theorem walk_cons {start : Place} {name : String} {names : List String}
    (h : (name :: names).foldlM t.step start = .ok place) :
    ∃ next, t.step start name = .ok next ∧ names.foldlM t.step next = .ok place := by
  rw [List.foldlM_cons] at h
  cases hstep : t.step start name with
  | error fault =>
    rw [hstep] at h
    cases h
  | ok next =>
    rw [hstep] at h
    exact ⟨next, rfl, h⟩

/-- **Where a way can be gone to its end, no directory is missing.** Names that stay may be left out. -/
theorem makeAlong_walk {names : List String} {start : Place}
    (h : names.foldlM t.step start = .ok place) :
    makeAlong start (names.filter (· ≠ ".")).dropLast t = (t, .ok ()) := by
  induction names generalizing start with
  | nil => rfl
  | cons name names ih =>
    obtain ⟨next, hstep, hrest⟩ := walk_cons h
    obtain ⟨-, hnext⟩ := directory_of_step hstep
    by_cases hstay : name = "."
    · rw [List.filter_cons_of_neg (by simpa using hstay)]
      rw [hnext, hstay, Path.enter, if_pos rfl] at hrest
      exact ih hrest
    · rw [List.filter_cons_of_pos (by simpa using hstay)]
      cases hkept : names.filter (· ≠ ".") with
      | nil => rfl
      | cons kept more =>
        -- a name follows, so this one leads to a directory
        have hfolder : t.entry? next = some .directory := by
          cases names with
          | nil => cases hkept
          | cons name' names' =>
            obtain ⟨_, hstep', -⟩ := walk_cons hrest
            exact (directory_of_step hstep').1
        rw [List.dropLast_cons_cons, makeAlong_step hstep hfolder, ← hkept]
        exact ih hrest

/-- The way of the names that count, but for the last of them. -/
theorem makeAlong_folder {p : Path} {start : Place} (h : p.names.foldlM t.step start = .ok place) :
    makeAlong start p.folder t = (t, .ok ()) := by
  unfold Path.folder Path.components
  cases hnames : p.names with
  | nil => rfl
  | cons name names =>
    rw [hnames] at h
    dsimp only
    split
    · -- a first name that stays is one of those that count, but it leads nowhere
      rename_i hstay
      obtain ⟨next, hstep, hrest⟩ := walk_cons h
      obtain ⟨hstart, hnext⟩ := directory_of_step hstep
      have hsame : next = start := by
        rw [hnext, Path.enter, if_pos (by simpa using (Bool.and_eq_true_iff.1 hstay).1)]
      subst hsame
      cases hkept : names.filter (· ≠ ".") with
      | nil => rfl
      | cons kept more =>
        rw [List.dropLast_cons_cons, makeAlong_step hstep hstart, ← hkept]
        exact makeAlong_walk hrest
    · exact makeAlong_walk h

/-- **No directory is missing on the way to a place.** -/
theorem makeFolders_of_locate {s : String} (h : t.locate (Path.ofString s) = .ok place) :
    t.makeFolders (Path.ofString s) = (t, .ok ()) := by
  unfold locate at h
  obtain ⟨_, hcheck, hwalk⟩ := ok_of_bind h
  split at hwalk
  · cases hwalk
  · unfold makeFolders
    rw [checkPath_folder hcheck]
    exact makeAlong_folder hwalk

/-- **A text that can be read can be replaced.** -/
theorem save_of_read {s old : String} (h : t.read (Path.ofString s) = .ok (.text old))
    (content : Content) :
    ∃ place, t.entry? place = some (.file (.text old)) ∧
      t.save (Path.ofString s) content = (t.put place (.file content), .ok ()) := by
  obtain ⟨place, hlocate, hentry, hslash⟩ := read_text_iff.1 h
  refine ⟨place, hentry, ?_⟩
  have hwrite : t.write (Path.ofString s) content = .ok (t.put place (.file content)) := by
    unfold write
    rw [hlocate]
    simp only [bind, Except.bind, hslash, hentry, Bool.false_or, decide_eq_true_eq, reduceCtorEq,
      if_false, Option.some.injEq]
  unfold save
  rw [makeFolders_of_locate hlocate]
  dsimp only
  rw [hwrite]

end FileTree
end CallIndex
