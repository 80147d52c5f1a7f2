import CallIndex.Signature
import Mathlib.Data.String.Basic

/-!
# Where a signature is cut

The split of a signature can be told by positions in its bytes: where the last word starts, and where the
last dot of that word stands. Cutting a text at positions may fail. Here it never does, whatever the text
is, and the split does not depend on what stands before the word.

* `Signature.cutOut`: the text between two positions. It fails outside the text, backwards, and inside a
  character of several bytes.
* `Signature.marksFrom`: the scan that keeps positions. `Signature.splitByMarks`: the split that cuts there.
* `Signature.Tracks`: both scans stand at the same place. `Tracks.step`: one more character keeps this.
* `Tracks.ends`: **both scans end with the same cut**, and a scan that starts at the word finds it again.
* `splitSignature_canonical`: **any text is split safely**, and the parts alone are split in the same way.
-/

namespace CallIndex

namespace Signature

open String (utf8Len)

/-! ## Cutting at positions -/

/-- Why a text cannot be cut. -/
inductive CutFault where
  | outside
  | backwards
  | insideCharacter
  deriving DecidableEq, Repr

/-- The text between two positions, which count bytes. -/
def cutOut (s : String) (first last : Nat) : Except CutFault String :=
  if s.utf8ByteSize < last then .error .outside
  else if last < first then .error .backwards
  else if String.Pos.Raw.isValid s ⟨first⟩ && String.Pos.Raw.isValid s ⟨last⟩ then
    .ok (String.Pos.Raw.extract s ⟨first⟩ ⟨last⟩)
  else .error .insideCharacter

/-- A position behind a part of a text is not inside a character. -/
theorem isValid_utf8Len (l r : List Char) :
    String.Pos.Raw.isValid (String.ofList (l ++ r)) ⟨utf8Len l⟩ = true := by
  rw [String.Pos.Raw.isValid_eq_true_iff, String.Pos.Raw.isValid_iff_exists_append]
  exact ⟨String.ofList l, String.ofList r, String.ofList_append,
    String.Pos.Raw.ext (String.utf8ByteSize_ofList l).symm⟩

/-- **A part of a text can be cut out of it.** -/
theorem cutOut_part (l m r : List Char) :
    cutOut (String.ofList (l ++ m ++ r)) (utf8Len l) (utf8Len l + utf8Len m) =
      .ok (String.ofList m) := by
  have hfirst := isValid_utf8Len l (m ++ r)
  have hlast := isValid_utf8Len (l ++ m) r
  rw [← List.append_assoc] at hfirst
  rw [String.utf8Len_append] at hlast
  have hinside : ¬ (String.ofList (l ++ m ++ r)).utf8ByteSize < utf8Len l + utf8Len m := by
    rw [String.utf8ByteSize_ofList, String.utf8Len_append, String.utf8Len_append]
    omega
  have hforward : ¬ utf8Len l + utf8Len m < utf8Len l := by omega
  unfold cutOut
  rw [if_neg hinside, if_neg hforward, hfirst, hlast, Bool.and_self, if_pos rfl,
    String.extract_of_valid]

example : cutOut "é." 1 2 = .error .insideCharacter := by decide +kernel

/-! ## The scan by positions -/

/-- What a scan by positions keeps: the depth of brackets, where the word starts, and where its last dot
stands. -/
structure Marks where
  depth : Nat := 0
  start : Nat := 0
  dot : Option Nat := none
  deriving DecidableEq, Repr

/-- One more character of a word, or one that starts a new word. -/
def Marks.step (m : Marks) (position : Nat) (c : Char) : Marks :=
  if isOpener c then { m with depth := m.depth + 1 }
  else if isCloser c then { m with depth := m.depth - 1 }
  else if c = ' ' ∧ m.depth = 0 then { m with start := position + 1, dot := none }
  else if c = '.' ∧ m.depth = 0 then { m with dot := some position }
  else m

/-- Scan the rest of a signature from a position. A round bracket that follows a character of the word
ends the scan. -/
def marksFrom (m : Marks) (position : Nat) : List Char → Marks
  | [] => m
  | c :: rest =>
    if c = '(' ∧ m.depth = 0 ∧ m.start < position then m
    else marksFrom (m.step position c) (position + c.utf8Size) rest

/-- The split by positions: what stands between the start of the word and its last dot, and all that
follows the dot. -/
def splitByMarks (signature : String) : Except CutFault (Option Parts) :=
  let m := marksFrom {} 0 signature.toList
  match m.dot with
  | none => .ok none
  | some dot => do
    let owner ← cutOut signature m.start dot
    let name ← cutOut signature (dot + 1) signature.utf8ByteSize
    .ok (if owner = "" ∨ name = "" then none else some ⟨owner, name⟩)

/-! ## Both scans -/

variable {text lead word todo : List Char} {cut : Option (List Char × List Char)} {m : Marks}
  {position : Nat}

/-- A cut of what follows some text, and the position of its dot. -/
def CutAt (lead rest : List Char) : Option (List Char × List Char) → Option Nat → Prop
  | none, dot => dot = none
  | some (owner, name), dot =>
    rest = owner ++ '.' :: name ∧ dot = some (utf8Len lead + utf8Len owner)

/-- Both scans stand at the same place of a text: behind what was left behind and the word, of which the
newest character comes first. -/
structure Tracks (text lead word todo : List Char) (cut : Option (List Char × List Char))
    (m : Marks) (position : Nat) : Prop where
  whole : text = lead ++ (word.reverse ++ todo)
  space : lead = [] ∨ ∃ front, lead = front ++ [' ']
  start : m.start = utf8Len lead
  here : position = m.start + utf8Len word
  cutAt : CutAt lead (word.reverse ++ todo) cut m.dot
  /-- A scan that starts at the word comes to the same place. -/
  resumed : splitFrom m.depth word cut todo = splitFrom 0 [] none (word.reverse ++ todo)

theorem tracks_start (text : List Char) : Tracks text [] [] text none {} 0 :=
  ⟨rfl, Or.inl rfl, rfl, rfl, rfl, rfl⟩

/-- The word has a character just when the position is behind its start. -/
theorem Tracks.word_ne_nil_iff (h : Tracks text lead word todo cut m position) :
    word ≠ [] ↔ m.start < position := by
  have hhere := h.here
  rw [ne_eq, ← String.utf8Len_eq_zero]
  omega

/-- A character that goes to the word. -/
theorem Tracks.push {c : Char} {cut' : Option (List Char × List Char)} {m' : Marks}
    (h : Tracks text lead word (c :: todo) cut m position)
    (hscan : splitFrom m.depth word cut (c :: todo) = splitFrom m'.depth (c :: word) cut' todo)
    (hstart : m'.start = m.start) (hcut : CutAt lead (word.reverse ++ c :: todo) cut' m'.dot) :
    Tracks text lead (c :: word) todo cut' m' (position + c.utf8Size) := by
  have hword : (c :: word).reverse ++ todo = word.reverse ++ c :: todo := by simp
  refine ⟨by rw [hword, ← h.whole], h.space, hstart.trans h.start, ?_, by rwa [hword], ?_⟩
  · rw [h.here, hstart, String.utf8Len_cons, Nat.add_assoc]
  · rw [hword, ← hscan, h.resumed]

/-- **One more character.** Either both scans end here, or both go on at the same place. -/
theorem Tracks.step {c : Char} (h : Tracks text lead word (c :: todo) cut m position) :
    (splitFrom m.depth word cut (c :: todo) = cut ∧ marksFrom m position (c :: todo) = m) ∨
      ∃ lead' word' cut', splitFrom m.depth word cut (c :: todo) =
          splitFrom (m.step position c).depth word' cut' todo ∧
        marksFrom m position (c :: todo) =
          marksFrom (m.step position c) (position + c.utf8Size) todo ∧
        Tracks text lead' word' todo cut' (m.step position c) (position + c.utf8Size) := by
  have hstop := h.word_ne_nil_iff
  by_cases hparen : c = '(' ∧ m.depth = 0 ∧ word ≠ []
  · left
    rw [splitFrom, if_pos hparen, marksFrom, if_pos ⟨hparen.1, hparen.2.1, hstop.1 hparen.2.2⟩]
    exact ⟨rfl, rfl⟩
  right
  have hparen' : ¬ (c = '(' ∧ m.depth = 0 ∧ m.start < position) := by rwa [hstop] at hparen
  have hmarks : marksFrom m position (c :: todo) =
      marksFrom (m.step position c) (position + c.utf8Size) todo := by
    rw [marksFrom, if_neg hparen']
  -- a bracket or another character leaves the cut as it is
  by_cases hopen : isOpener c = true
  · have hnext : m.step position c = { m with depth := m.depth + 1 } := if_pos hopen
    rw [hnext] at hmarks ⊢
    have hscan : splitFrom m.depth word cut (c :: todo) =
        splitFrom (m.depth + 1) (c :: word) cut todo := by
      rw [splitFrom, if_neg hparen, if_pos hopen]
    exact ⟨lead, c :: word, cut, hscan, hmarks, h.push hscan rfl h.cutAt⟩
  by_cases hclose : isCloser c = true
  · have hnext : m.step position c = { m with depth := m.depth - 1 } := by
      rw [Marks.step, if_neg hopen, if_pos hclose]
    rw [hnext] at hmarks ⊢
    have hscan : splitFrom m.depth word cut (c :: todo) =
        splitFrom (m.depth - 1) (c :: word) cut todo := by
      rw [splitFrom, if_neg hparen, if_neg hopen, if_pos hclose]
    exact ⟨lead, c :: word, cut, hscan, hmarks, h.push hscan rfl h.cutAt⟩
  by_cases hspace : c = ' ' ∧ m.depth = 0
  · obtain ⟨rfl, hdepth⟩ := hspace
    have hnext : m.step position ' ' = { m with start := position + 1, dot := none } := by
      rw [Marks.step, if_neg hopen, if_neg hclose, if_pos ⟨rfl, hdepth⟩]
    rw [hnext] at hmarks ⊢
    have hscan : splitFrom m.depth word cut (' ' :: todo) = splitFrom m.depth [] none todo := by
      rw [splitFrom, if_neg hparen, if_neg hopen, if_neg hclose, if_pos ⟨rfl, hdepth⟩]
    -- the word is left behind, with the space
    refine ⟨lead ++ word.reverse ++ [' '], [], none, hscan, hmarks, ?_, Or.inr ⟨_, rfl⟩, ?_, rfl, rfl,
      by rw [hdepth]; rfl⟩
    · rw [h.whole]
      simp
    · show position + 1 = _
      rw [h.here, h.start, String.utf8Len_append, String.utf8Len_append, String.utf8Len_reverse]
      rfl
  by_cases hdot : c = '.' ∧ m.depth = 0
  · obtain ⟨rfl, hdepth⟩ := hdot
    have hnext : m.step position '.' = { m with dot := some position } := by
      rw [Marks.step, if_neg hopen, if_neg hclose, if_neg hspace, if_pos ⟨rfl, hdepth⟩]
    rw [hnext] at hmarks ⊢
    have hscan : splitFrom m.depth word cut ('.' :: todo) =
        splitFrom m.depth ('.' :: word) (some (word.reverse, todo)) todo := by
      rw [splitFrom, if_neg hparen, if_neg hopen, if_neg hclose, if_neg hspace,
        if_pos ⟨rfl, hdepth⟩]
    refine ⟨lead, '.' :: word, _, hscan, hmarks, h.push hscan rfl ⟨rfl, ?_⟩⟩
    rw [h.here, h.start, String.utf8Len_reverse]
  · have hnext : m.step position c = m := by
      rw [Marks.step, if_neg hopen, if_neg hclose, if_neg hspace, if_neg hdot]
    rw [hnext] at hmarks ⊢
    have hscan : splitFrom m.depth word cut (c :: todo) =
        splitFrom m.depth (c :: word) cut todo := by
      rw [splitFrom, if_neg hparen, if_neg hopen, if_neg hclose, if_neg hspace, if_neg hdot]
    exact ⟨lead, c :: word, cut, hscan, hmarks, h.push hscan rfl h.cutAt⟩

/-- What both scans find in a text: no dot, or the same cut of the last word. -/
inductive Finds (text : List Char) : Option (List Char × List Char) → Marks → Prop
  | none {m : Marks} (hdot : m.dot = none) : Finds text none m
  | cut {lead owner name : List Char} {m : Marks} (hwhole : text = lead ++ (owner ++ '.' :: name))
      (hspace : lead = [] ∨ ∃ front, lead = front ++ [' ']) (hstart : m.start = utf8Len lead)
      (hdot : m.dot = some (utf8Len lead + utf8Len owner))
      (halone : splitFrom 0 [] none (owner ++ '.' :: name) = some (owner, name)) :
      Finds text (some (owner, name)) m

/-- Where both scans end, they have found the same. -/
theorem Tracks.finds (h : Tracks text lead word todo cut m position)
    (hend : splitFrom m.depth word cut todo = cut) : Finds text cut m := by
  have hwhole := h.whole
  have hcut := h.cutAt
  have hresumed := h.resumed
  cases cut with
  | none => exact .none hcut
  | some parts =>
    obtain ⟨owner, name⟩ := parts
    obtain ⟨hrest, hdot⟩ := hcut
    rw [hrest] at hwhole hresumed
    exact .cut hwhole h.space h.start hdot (hresumed.symm.trans hend)

/-- **Both scans end with the same cut.** -/
theorem Tracks.ends (h : Tracks text lead word todo cut m position) :
    Finds text (splitFrom m.depth word cut todo) (marksFrom m position todo) := by
  induction todo generalizing lead word cut m position with
  | nil => exact h.finds rfl
  | cons c todo ih =>
    rcases h.step with ⟨hend, hmarks⟩ | ⟨lead', word', cut', hscan, hmarks, hnext⟩
    · rw [hmarks, hend]
      exact h.finds hend
    · rw [hmarks, hscan]
      exact ih hnext

theorem finds_split (text : List Char) :
    Finds text (splitFrom 0 [] none text) (marksFrom {} 0 text) :=
  (tracks_start text).ends

/-- The parts of a signature, from the cut of its characters. -/
theorem splitSignature_of_cut {signature : String} {owner name : List Char}
    (h : splitFrom 0 [] none signature.toList = some (owner, name)) :
    splitSignature signature = if owner = [] ∨ name = [] then none
      else some ⟨String.ofList owner, String.ofList name⟩ := by
  unfold splitSignature splitChars
  rw [h]
  cases owner <;> cases name <;> rfl

/-- **The split by positions never fails**, and is the split. -/
theorem splitByMarks_eq (signature : String) :
    splitByMarks signature = .ok (splitSignature signature) := by
  have hfinds := finds_split signature.toList
  generalize hmarks : marksFrom {} 0 signature.toList = m at hfinds
  generalize hsplit : splitFrom 0 [] none signature.toList = cut at hfinds
  unfold splitByMarks
  rw [hmarks]
  dsimp only
  cases hfinds with
  | none hdot =>
    have hnone : splitSignature signature = none := by
      unfold splitSignature splitChars
      rw [hsplit]
      rfl
    rw [hdot, hnone]
  | @cut lead owner name _ hwhole _ hstart hdot _ =>
    have hsignature : signature = String.ofList (lead ++ owner ++ '.' :: name) := by
      rw [List.append_assoc, ← hwhole, String.ofList_toList]
    have howner := cutOut_part lead owner ('.' :: name)
    have hname := cutOut_part (lead ++ owner ++ ['.']) name []
    have hdot' : utf8Len (lead ++ owner ++ ['.']) = utf8Len lead + utf8Len owner + 1 := by
      rw [String.utf8Len_append, String.utf8Len_append]
      rfl
    have hend : signature.utf8ByteSize = utf8Len lead + utf8Len owner + 1 + utf8Len name := by
      have hone : ('.').utf8Size = 1 := rfl
      rw [hsignature, String.utf8ByteSize_ofList, String.utf8Len_append, String.utf8Len_append,
        String.utf8Len_cons]
      omega
    rw [List.append_nil, List.append_assoc _ ['.'], List.singleton_append, hdot', ← hsignature]
      at hname
    rw [← hsignature] at howner
    rw [splitSignature_of_cut hsplit, hdot]
    simp only [hstart, hend, howner, hname, bind, Except.bind, String.ofList_eq_empty_iff]

end Signature

open Signature

/-- **Any text is split safely, and in one way.** Cutting by positions never goes outside the text,
backwards, or inside a character, and gives the split. If there is one, then no part is empty, and before
them stands nothing, or something that ends with a space. Without that, the text is split in the same
way. -/
theorem splitSignature_canonical (signature : String) :
    splitByMarks signature = .ok (splitSignature signature) ∧
      ∀ owner name, splitSignature signature = some ⟨owner, name⟩ →
        owner ≠ "" ∧ name ≠ "" ∧
        (∃ lead, signature = lead ++ owner ++ "." ++ name ∧
          (lead = "" ∨ ∃ front, lead = front ++ " ")) ∧
        splitSignature (owner ++ "." ++ name) = some ⟨owner, name⟩ := by
  refine ⟨splitByMarks_eq signature, fun owner name hparts => ?_⟩
  have hfinds := finds_split signature.toList
  generalize marksFrom {} 0 signature.toList = m at hfinds
  generalize hsplit : splitFrom 0 [] none signature.toList = cut at hfinds
  cases hfinds with
  | none hdot =>
    unfold splitSignature splitChars at hparts
    rw [hsplit] at hparts
    cases hparts
  | @cut lead owner' name' _ hwhole hspace _ _ halone =>
    rw [splitSignature_of_cut hsplit] at hparts
    by_cases hempty : owner' = [] ∨ name' = []
    · rw [if_pos hempty] at hparts
      cases hparts
    rw [if_neg hempty] at hparts
    cases hparts
    have hrest : (String.ofList owner' ++ "." ++ String.ofList name').toList =
        owner' ++ '.' :: name' := by
      simp
    rw [← hrest] at halone
    refine ⟨?_, ?_, ⟨String.ofList lead, ?_, ?_⟩, ?_⟩
    · simpa using fun h => hempty (Or.inl h)
    · simpa using fun h => hempty (Or.inr h)
    · rw [← String.toList_inj]
      simpa using hwhole
    · rcases hspace with rfl | ⟨front, rfl⟩
      · exact Or.inl rfl
      · exact Or.inr ⟨String.ofList front, String.ofList_append⟩
    · rw [splitSignature_of_cut halone, if_neg hempty]

/-- Brackets that match nothing, characters of several bytes, blanks and dots in a row. -/
theorem splitSignature_canonical_malformed :
    let signature := "ß) €.x  ]Ü..𝔸<. (> é(.] ("
    splitByMarks signature = .ok (some ⟨"]Ü.", "𝔸<. (> é(.] ("⟩) ∧
      splitSignature "]Ü..𝔸<. (> é(.] (" = some ⟨"]Ü.", "𝔸<. (> é(.] ("⟩ := by
  intro signature
  obtain ⟨hmarks, hparts⟩ := splitSignature_canonical signature
  have hsplit : splitSignature signature = some ⟨"]Ü.", "𝔸<. (> é(.] ("⟩ := by decide +kernel
  obtain ⟨-, -, -, halone⟩ := hparts _ _ hsplit
  have hrest : "]Ü." ++ "." ++ "𝔸<. (> é(.] (" = "]Ü..𝔸<. (> é(.] (" := by decide +kernel
  rw [hrest] at halone
  exact ⟨hmarks.trans (by rw [hsplit]), halone⟩

end CallIndex
