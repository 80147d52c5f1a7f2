import CallIndex.Signature
import Mathlib.Data.List.Infix

/-!
# Signatures in their grammar

A signature is a return type, a class, a dot, a name and a parameter list. Brackets may nest anywhere in
the first four, and anything may stand in the last.

* `Signature.depth`: openers less closers. `Signature.Balanced`: no closer comes too early, and none is
  missing. `Signature.Outside`: a character stands outside all brackets.
* `Signature.Grammar`: what a return type, a class, a name and a parameter list may look like.
* `splitFrom_through`: the scan passes through a balanced text and keeps its depth.
* `splitSignature_grammar`: **a signature of the grammar is split between its class and its name.**
-/

namespace CallIndex

namespace Signature

/-! ## Brackets -/

/-- What a character adds to the depth. -/
def weight (c : Char) : Int := if isOpener c then 1 else if isCloser c then -1 else 0

/-- The depth after a text: its openers less its closers. -/
def depth (text : List Char) : Int := text.foldr (fun c d => weight c + d) 0

/-- The depth never goes below zero, and ends there. -/
structure Balanced (text : List Char) : Prop where
  nonneg : ∀ p, p <+: text → 0 ≤ depth p
  closed : depth text = 0

/-- A character stands outside all brackets somewhere in a text. -/
def Outside (c : Char) (text : List Char) : Prop := ∃ p, p ++ [c] <+: text ∧ depth p = 0

@[simp] theorem depth_nil : depth [] = 0 := rfl

@[simp] theorem depth_append (s t : List Char) : depth (s ++ t) = depth s + depth t := by
  induction s with
  | nil => exact (Int.zero_add _).symm
  | cons c s ih =>
    show weight c + depth (s ++ t) = weight c + depth s + depth t
    rw [ih, Int.add_assoc]

@[simp] theorem depth_singleton (c : Char) : depth [c] = weight c := Int.add_zero _

/-! ## The grammar -/

/-- A word of a return type. A round bracket outside all others only starts it, as that of a tuple. -/
structure IsWord (text : List Char) : Prop where
  balanced : Balanced text
  space : ¬ Outside ' ' text
  paren : ∀ p, p ++ ['('] <+: text → depth p = 0 → p = []

/-- The class of a signature. -/
structure IsOwner (text : List Char) : Prop where
  nonempty : text ≠ []
  balanced : Balanced text
  space : ¬ Outside ' ' text
  paren : ¬ Outside '(' text

/-- The name of a method, with its type parameters. -/
structure IsName (text : List Char) : Prop where
  nonempty : text ≠ []
  balanced : Balanced text
  dot : ¬ Outside '.' text
  space : ¬ Outside ' ' text
  paren : ¬ Outside '(' text

/-- The parts of a signature. The parameter list may be missing; behind its bracket anything may
stand. -/
structure Grammar (words : List String) (owner name parameters : String) : Prop where
  words : ∀ w ∈ words, IsWord w.toList
  owner : IsOwner owner.toList
  name : IsName name.toList
  parameters : parameters.toList = [] ∨ ∃ rest, parameters.toList = '(' :: rest

section Decidable

variable (c : Char) (text : List Char)

instance : Decidable (Balanced text) :=
  decidable_of_iff ((∀ p ∈ text.inits, 0 ≤ depth p) ∧ depth text = 0)
    ⟨fun h => ⟨fun p hp => h.1 p ((List.mem_inits p text).2 hp), h.2⟩,
      fun h => ⟨fun p hp => h.nonneg p ((List.mem_inits p text).1 hp), h.closed⟩⟩

instance : Decidable (Outside c text) :=
  decidable_of_iff (∃ p ∈ text.inits, p ++ [c] <+: text ∧ depth p = 0)
    ⟨fun ⟨p, _, h⟩ => ⟨p, h⟩,
      fun ⟨p, h⟩ => ⟨p, (List.mem_inits p text).2 ((List.prefix_append p [c]).trans h.1), h⟩⟩

instance : Decidable (IsWord text) :=
  decidable_of_iff (Balanced text ∧ ¬ Outside ' ' text ∧
      ∀ p ∈ text.inits, p ++ ['('] <+: text → depth p = 0 → p = [])
    ⟨fun h => ⟨h.1, h.2.1, fun p hp =>
        h.2.2 p ((List.mem_inits p text).2 ((List.prefix_append p ['(']).trans hp)) hp⟩,
      fun h => ⟨h.balanced, h.space, fun p _ => h.paren p⟩⟩

instance : Decidable (IsOwner text) :=
  decidable_of_iff (text ≠ [] ∧ Balanced text ∧ ¬ Outside ' ' text ∧ ¬ Outside '(' text)
    ⟨fun h => ⟨h.1, h.2.1, h.2.2.1, h.2.2.2⟩, fun h => ⟨h.nonempty, h.balanced, h.space, h.paren⟩⟩

instance : Decidable (IsName text) :=
  decidable_of_iff (text ≠ [] ∧ Balanced text ∧ ¬ Outside '.' text ∧ ¬ Outside ' ' text ∧
      ¬ Outside '(' text)
    ⟨fun h => ⟨h.1, h.2.1, h.2.2.1, h.2.2.2.1, h.2.2.2.2⟩,
      fun h => ⟨h.nonempty, h.balanced, h.dot, h.space, h.paren⟩⟩

end Decidable

/-! ## The scan -/

/-- The depth that the scan counts after one more character. -/
def stepDepth (depth : Nat) (c : Char) : Nat :=
  if isOpener c then depth + 1 else if isCloser c then depth - 1 else depth

/-- It is the depth of the text, as long as that is not negative. -/
theorem toNat_depth_concat {read : List Char} (h : 0 ≤ depth read) (c : Char) :
    (depth (read ++ [c])).toNat = stepDepth (depth read).toNat c := by
  rw [depth_append, depth_singleton]
  unfold weight stepDepth
  by_cases hopen : isOpener c = true
  · rw [if_pos hopen, if_pos hopen]
    omega
  · rw [if_neg hopen, if_neg hopen]
    by_cases hclose : isCloser c = true
    · rw [if_pos hclose, if_pos hclose]
      omega
    · rw [if_neg hclose, if_neg hclose]
      omega

variable {before rest : List Char} {cut : Option (List Char × List Char)}

/-- A character that neither ends the scan nor the word goes to the word. Only a dot outside brackets
moves the cut. -/
theorem splitFrom_cons (rest : List Char) (cut : Option (List Char × List Char)) {d : Nat} {c : Char}
    (hparen : c = '(' → d = 0 → before = []) (hspace : c = ' ' → d ≠ 0) :
    ∃ cut', (¬ (c = '.' ∧ d = 0) → cut' = cut) ∧
      splitFrom d before cut (c :: rest) = splitFrom (stepDepth d c) (c :: before) cut' rest := by
  have hstop : ¬ (c = '(' ∧ d = 0 ∧ before ≠ []) := fun h => h.2.2 (hparen h.1 h.2.1)
  have hword : ¬ (c = ' ' ∧ d = 0) := fun h => hspace h.1 h.2
  rw [splitFrom, if_neg hstop, if_neg hword]
  unfold stepDepth
  split
  · exact ⟨cut, fun _ => rfl, rfl⟩
  split
  · exact ⟨cut, fun _ => rfl, rfl⟩
  split
  · rename_i hdot
    exact ⟨_, fun h => absurd hdot h, rfl⟩
  · exact ⟨cut, fun _ => rfl, rfl⟩

/-- The scan of the rest of a text of which some was read. -/
theorem splitFrom_todo (rest : List Char) (cut : Option (List Char × List Char))
    {text read todo : List Char} (htext : read ++ todo = text)
    (hnonneg : ∀ p, p <+: text → 0 ≤ depth p) (hspace : ¬ Outside ' ' text)
    (hparen : ∀ p, p ++ ['('] <+: text → depth p = 0 → p = [] ∧ before = []) :
    ∃ cut', (¬ Outside '.' text → cut' = cut) ∧
      splitFrom (depth read).toNat (read.reverse ++ before) cut (todo ++ rest) =
        splitFrom (depth text).toNat (text.reverse ++ before) cut' rest := by
  induction todo generalizing read cut with
  | nil =>
    rw [List.append_nil] at htext
    exact ⟨cut, fun _ => rfl, by rw [htext]; rfl⟩
  | cons c todo ih =>
    have hnext : read ++ [c] <+: text := ⟨todo, by rw [← htext, List.append_assoc]; rfl⟩
    have hread : 0 ≤ depth read := hnonneg _ ((List.prefix_append read [c]).trans hnext)
    have hzero : (depth read).toNat = 0 → depth read = 0 := by omega
    have hfirst : c = '(' → (depth read).toNat = 0 → read.reverse ++ before = [] := by
      rintro rfl hd
      obtain ⟨rfl, rfl⟩ := hparen read hnext (hzero hd)
      rfl
    have hinside : c = ' ' → (depth read).toNat ≠ 0 := by
      rintro rfl hd
      exact hspace ⟨read, hnext, hzero hd⟩
    have hsplit : (read ++ [c]) ++ todo = text := by
      rw [← htext, List.append_assoc]
      rfl
    obtain ⟨cut₁, hcut₁, hstep⟩ := splitFrom_cons (todo ++ rest) cut hfirst hinside
    obtain ⟨cut₂, hcut₂, hrun⟩ := ih cut₁ hsplit
    refine ⟨cut₂, ?_, ?_⟩
    · intro hdot
      rw [hcut₂ hdot, hcut₁]
      rintro ⟨rfl, hd⟩
      exact hdot ⟨read, hnext, hzero hd⟩
    · rw [toNat_depth_concat hread, List.reverse_append] at hrun
      exact hstep.trans hrun

/-- **The scan passes through a balanced text**, and ends outside brackets as it began. -/
theorem splitFrom_through (rest : List Char) (cut : Option (List Char × List Char))
    {text : List Char} (h : Balanced text) (hspace : ¬ Outside ' ' text)
    (hparen : ∀ p, p ++ ['('] <+: text → depth p = 0 → p = [] ∧ before = []) :
    ∃ cut', (¬ Outside '.' text → cut' = cut) ∧
      splitFrom 0 before cut (text ++ rest) = splitFrom 0 (text.reverse ++ before) cut' rest := by
  have hrun := splitFrom_todo rest cut (List.nil_append text) h.nonneg hspace hparen
  rwa [h.closed] at hrun

/-- A return type is left behind, whatever was cut in it. -/
theorem splitFrom_words {words : List (List Char)} (hwords : ∀ w ∈ words, IsWord w) :
    splitFrom 0 [] none (words.flatMap (fun w => w ++ [' ']) ++ rest) = splitFrom 0 [] none rest := by
  induction words with
  | nil => rfl
  | cons w words ih =>
    obtain ⟨hw, hwords⟩ := List.forall_mem_cons.1 hwords
    obtain ⟨cut, -, hrun⟩ := splitFrom_through (' ' :: (words.flatMap (fun w => w ++ [' ']) ++ rest))
      none hw.balanced hw.space fun p hp hd => ⟨hw.paren p hp hd, rfl⟩
    rw [List.flatMap_cons, List.append_assoc, List.append_assoc, List.singleton_append, hrun,
      ← ih hwords]
    -- the space starts a new word
    rfl

/-- A dot outside brackets cuts the word. -/
theorem splitFrom_dot :
    splitFrom 0 before cut ('.' :: rest) =
      splitFrom 0 ('.' :: before) (some (before.reverse, rest)) rest := rfl

/-- A parameter list ends the scan, and so does the end of the signature. -/
theorem splitFrom_parameters (hbefore : before ≠ []) {parameters : List Char}
    (h : parameters = [] ∨ ∃ rest, parameters = '(' :: rest) :
    splitFrom 0 before cut parameters = cut := by
  rcases h with rfl | ⟨rest, rfl⟩
  · rfl
  · rw [splitFrom, if_pos ⟨rfl, rfl, hbefore⟩]

/-- **The scan of a signature of the grammar** ends with the cut before the name. -/
theorem splitFrom_grammar {words : List (List Char)} {owner name parameters : List Char}
    (hwords : ∀ w ∈ words, IsWord w) (howner : IsOwner owner) (hname : IsName name)
    (hparameters : parameters = [] ∨ ∃ rest, parameters = '(' :: rest) :
    splitFrom 0 [] none
        (words.flatMap (fun w => w ++ [' ']) ++ (owner ++ '.' :: (name ++ parameters))) =
      some (owner, name ++ parameters) := by
  obtain ⟨cut, -, hrun⟩ := splitFrom_through ('.' :: (name ++ parameters)) none howner.balanced
    howner.space fun p hp hd => absurd ⟨p, hp, hd⟩ howner.paren
  -- the name has no dot of its own, so the cut stays
  obtain ⟨cut', hcut', hrun'⟩ := splitFrom_through parameters
    (some ((owner.reverse ++ []).reverse, name ++ parameters)) hname.balanced hname.space
    fun p hp hd => absurd ⟨p, hp, hd⟩ hname.paren
  have hword : name.reverse ++ '.' :: (owner.reverse ++ []) ≠ [] := by simp
  rw [splitFrom_words hwords, hrun, splitFrom_dot, hrun', splitFrom_parameters hword hparameters,
    hcut' hname.dot]
  simp

end Signature

open Signature

/-- **Splitting a signature of the grammar.** Write a return type of any words, each with a space after
it, a class, a dot, a name and a parameter list. Then the split gives the class, and the name with the
parameters. So no dot, space or bracket in the return type, between other brackets or in the parameters
moves it. -/
theorem splitSignature_grammar {words : List String} {owner name parameters : String}
    (h : Grammar words owner name parameters) :
    splitSignature (String.join (words.map fun w => w ++ " ") ++ owner ++ "." ++ name ++ parameters) =
      some ⟨owner, name ++ parameters⟩ := by
  have hwords : ∀ w ∈ words.map String.toList, IsWord w := by
    intro w hw
    obtain ⟨s, hs, rfl⟩ := List.mem_map.1 hw
    exact h.words s hs
  have hscan := splitFrom_grammar hwords h.owner h.name h.parameters
  have htext : (String.join (words.map fun w => w ++ " ") ++ owner ++ "." ++ name ++
      parameters).toList = (words.map String.toList).flatMap (fun w => w ++ [' ']) ++
        (owner.toList ++ '.' :: (name.toList ++ parameters.toList)) := by
    simp [List.flatMap_map]
  have howner : owner ≠ "" := by
    rintro rfl
    exact h.owner.nonempty rfl
  have hname : name ≠ "" := by
    rintro rfl
    exact h.name.nonempty rfl
  unfold splitSignature splitChars
  rw [htext, hscan]
  simp [howner, hname]

/-- A tuple and an array as return types, a generic class with a dot between its brackets, and
parameters with dots, blanks and brackets that match nothing. -/
theorem splitSignature_grammar_nested :
    let signature := "static (int a, P.List<(B, C)>[,]) P.Box<S.T, (A, B)>.In.Get<K>(a.b, > ]) x. ("
    Grammar ["static", "(int a, P.List<(B, C)>[,])"] "P.Box<S.T, (A, B)>.In" "Get<K>"
        "(a.b, > ]) x. (" ∧
      splitSignature signature = some ⟨"P.Box<S.T, (A, B)>.In", "Get<K>(a.b, > ]) x. ("⟩ := by
  intro signature
  have h : Grammar ["static", "(int a, P.List<(B, C)>[,])"] "P.Box<S.T, (A, B)>.In" "Get<K>"
      "(a.b, > ]) x. (" :=
    ⟨by decide +kernel, by decide +kernel, by decide +kernel, Or.inr ⟨_, rfl⟩⟩
  have hparts := splitSignature_grammar h
  have hsignature : String.join (["static", "(int a, P.List<(B, C)>[,])"].map fun w => w ++ " ") ++
      "P.Box<S.T, (A, B)>.In" ++ "." ++ "Get<K>" ++ "(a.b, > ]) x. (" = signature := by
    decide +kernel
  have hname : "Get<K>" ++ "(a.b, > ]) x. (" = "Get<K>(a.b, > ]) x. (" := by decide +kernel
  rw [hsignature, hname] at hparts
  exact ⟨h, hparts⟩

end CallIndex
