import CallIndex.Cli.Arguments
import CallIndex.Proofs.Written

/-!
# Arguments at one place

The arguments at one place, before the word of a command or after it, are written by a grammar. They are
taken one after the other, and a value is checked when the next argument is taken. Each step is related to
the grammar here, and so is a whole run of steps.

* `Letters`, `Dashed`, `Spells`: **the grammar**. It says which switches are given, with which values, and
  what the operands are.
* `Fits`: the switches and the operands may stand at one place together.
* `Reading.switches`, `Reading.texts`: what was read so far, checked or not.
* `Reading.settle_iff`: what is checked when the next argument comes. The steps that take letters, what
  stands after two dashes, and any argument, follow: `takeLetters_iff`, `takeLong_iff`, `take_iff`.
* `Reading.foldlM_take_iff`: **arguments are read if and only if they are written by the grammar and fit**,
  and what is read is what they say.
-/

namespace CallIndex.Cli

/-! ## The grammar -/

/-- An argument that is not written as a switch. A single dash is none. -/
def Plain (a : String) : Prop := ∀ c text, a.toList ≠ '-' :: c :: text

/-- What follows the letter of a switch with a value: the value, after an equals sign or not, or nothing.
Then the value is the next argument. -/
inductive LetterValue (s : Switch) : List Char → List (Switch × String) → Option Switch → Prop where
  | next : LetterValue s [] [] (some s)
  | equals (text : List Char) : LetterValue s ('=' :: text) [(s, String.ofList text)] none
  | joined {c : Char} (text : List Char) (hc : c ≠ '=') :
      LetterValue s (c :: text) [(s, String.ofList (c :: text))] none

/-- Letters after one dash: the switches that they give, and the one whose value is the next argument. All
but the last are flags. -/
inductive Letters (verb : Option Verb) :
    List Char → List (Switch × String) → Option Switch → Prop where
  | nil : Letters verb [] [] none
  | flag {s : Switch} {c : Char} {text : List Char} {given : List (Switch × String)}
      {last : Option Switch} (hknown : s ∈ Switch.known verb) (hletter : s.letter? = some c)
      (hflag : s.takesValue = false) (hrest : Letters verb text given last) :
      Letters verb (c :: text) ((s, "") :: given) last
  | valued {s : Switch} {c : Char} {text : List Char} {given : List (Switch × String)}
      {last : Option Switch} (hknown : s ∈ Switch.known verb) (hletter : s.letter? = some c)
      (hvalue : s.takesValue = true) (hrest : LetterValue s text given last) :
      Letters verb (c :: text) given last

/-- An argument that is a switch by its name, or the letters of some: the switches that it gives, and the
one whose value is the next argument. -/
inductive Dashed (verb : Option Verb) :
    String → List (Switch × String) → Option Switch → Prop where
  | flag {s : Switch} (hknown : s ∈ Switch.known verb) (hflag : s.takesValue = false) :
      Dashed verb ("--" ++ s.long) [(s, "")] none
  | next {s : Switch} (hknown : s ∈ Switch.known verb) (hvalue : s.takesValue = true) :
      Dashed verb ("--" ++ s.long) [] (some s)
  | equals {s : Switch} (value : String) (hknown : s ∈ Switch.known verb)
      (hvalue : s.takesValue = true) : Dashed verb ("--" ++ s.long ++ "=" ++ value) [(s, value)] none
  | letters {c : Char} {text : List Char} {given : List (Switch × String)} {last : Option Switch}
      (h : Letters verb (c :: text) given last) :
      Dashed verb (String.ofList ('-' :: c :: text)) given last

/-- Arguments at one place, behind a switch that waits for its value or not: the switches that they give,
the operands, and whether two dashes are among them. After these all arguments are operands. -/
inductive Spells (verb : Option Verb) :
    Option Switch → List String → List (Switch × String) → List String → Bool → Prop where
  | nil : Spells verb none [] [] [] false
  | operand {a : String} {args operands : List String} {given : List (Switch × String)} {ended : Bool}
      (ha : Plain a) (hrest : Spells verb none args given operands ended) :
      Spells verb none (a :: args) given (a :: operands) ended
  | dashed {a : String} {args operands : List String} {given more : List (Switch × String)}
      {last : Option Switch} {ended : Bool} (ha : Dashed verb a given last)
      (hrest : Spells verb last args more operands ended) :
      Spells verb none (a :: args) (given ++ more) operands ended
  | value {s : Switch} {a : String} {args operands : List String} {given : List (Switch × String)}
      {ended : Bool} (ha : Plain a) (hrest : Spells verb none args given operands ended) :
      Spells verb (some s) (a :: args) ((s, a) :: given) operands ended
  | dashes (operands : List String) : Spells verb none ("--" :: operands) [] operands true

/-- Switches that may stand at one place: each has a value that it can have, none is given twice but one
that may be, and none is a question. -/
structure Allowed (given : List (Switch × String)) : Prop where
  accepted : ∀ p ∈ given, p.1.accepts p.2 = true
  once : given.Pairwise fun p q => q.1 = p.1 → q.1.repeats = true
  unasked : ∀ p ∈ given, p.1 ≠ .help ∧ p.1 ≠ .version

/-- The operands of a command. There are none before its word. -/
def places (verb : Option Verb) : List Operand := verb.elim [] Verb.operands

/-- Whether texts can stand for the first operands. -/
def fill : List Operand → List String → Bool
  | _, [] => true
  | [], _ :: _ => false
  | o :: places, text :: texts => o.accepts text && fill places texts

/-- Switches and operands that may stand at one place together. -/
structure Fits (verb : Option Verb) (given : List (Switch × String)) (operands : List String) :
    Prop where
  allowed : Allowed given
  fills : fill (places verb) operands = true

variable {verb : Option Verb} {a : String} {text : List Char} {given more : List (Switch × String)}
  {last : Option Switch} {operands : List String}

/-! ## Switches that are allowed, and operands that fill their places -/

theorem allowed_nil : Allowed [] :=
  ⟨List.forall_mem_nil _, .nil, List.forall_mem_nil _⟩

theorem allowed_concat {s : Switch} {value : String} :
    Allowed (given ++ [(s, value)]) ↔ Allowed given ∧ s.accepts value = true ∧
      (∀ p ∈ given, s = p.1 → s.repeats = true) ∧ s ≠ .help ∧ s ≠ .version := by
  constructor
  · rintro ⟨haccepted, honce, hunasked⟩
    simp only [List.pairwise_append, List.forall_mem_append, List.forall_mem_singleton] at *
    exact ⟨⟨haccepted.1, honce.1, hunasked.1⟩, haccepted.2, honce.2.2, hunasked.2⟩
  · rintro ⟨⟨haccepted, honce, hunasked⟩, hs, hnew, hquestion⟩
    refine ⟨?_, ?_, ?_⟩
    · simpa only [List.forall_mem_append, List.forall_mem_singleton] using ⟨haccepted, hs⟩
    · simpa only [List.pairwise_append, List.forall_mem_singleton] using
        ⟨honce, List.pairwise_singleton _ _, hnew⟩
    · simpa only [List.forall_mem_append, List.forall_mem_singleton] using ⟨hunasked, hquestion⟩

theorem Allowed.of_append (h : Allowed (given ++ more)) : Allowed given where
  accepted p hp := h.accepted p (List.mem_append_left _ hp)
  once := (List.pairwise_append.1 h.once).1
  unasked p hp := h.unasked p (List.mem_append_left _ hp)

/-- A switch that is not repeated is given once, so it does not matter from where it is looked for. -/
theorem Allowed.lookup_reverse (h : Allowed given) {s : Switch} (hs : s.repeats = false) :
    given.reverse.lookup s = given.lookup s := by
  obtain ⟨-, honce, -⟩ := h
  induction given with
  | nil => rfl
  | cons p given ih =>
    obtain ⟨t, value⟩ := p
    obtain ⟨hp, honce⟩ := List.pairwise_cons.1 honce
    rw [List.reverse_cons, List.lookup_append, ih honce]
    by_cases hsame : s = t
    · subst hsame
      have hnone : given.lookup s = none := by
        refine List.lookup_eq_none_iff.2 fun q hq => bne_iff_ne.2 fun hq' => ?_
        have hrepeats := hp q hq hq'.symm
        rw [← hq', hs] at hrepeats
        cases hrepeats
      simp [hnone]
    · have hother : (s == t) = false := beq_false_of_ne hsame
      simp [List.lookup_cons, hother]

theorem fill_concat {places : List Operand} {value : String} :
    fill places (operands ++ [value]) = true ↔
      fill places operands = true ∧
        ∃ o, places[operands.length]? = some o ∧ o.accepts value = true := by
  induction operands generalizing places with
  | nil => cases places <;> simp [fill]
  | cons u operands ih =>
    cases places with
    | nil => simp [fill]
    | cons o places => simp [fill, ih, and_assoc]

theorem fill_of_append {places : List Operand} {rest : List String}
    (h : fill places (operands ++ rest) = true) : fill places operands = true := by
  induction operands generalizing places with
  | nil => cases places <;> rfl
  | cons u operands ih =>
    cases places with
    | nil => exact h
    | cons o places =>
      rw [List.cons_append, fill, Bool.and_eq_true] at h
      rw [fill, h.1, ih h.2]
      rfl

/-! ## Names and letters of switches -/

/-- A switch is found by what it alone has. -/
theorem find?_iff {known : List Switch} {p : Switch → Bool} {s : Switch}
    (halone : ∀ s t, p s = true → p t = true → s = t) :
    known.find? p = some s ↔ s ∈ known ∧ p s = true := by
  refine ⟨fun h => ⟨List.mem_of_find?_eq_some h, List.find?_some h⟩, ?_⟩
  rintro ⟨hknown, hs⟩
  cases hfind : known.find? p with
  | none => exact absurd hs (List.find?_eq_none.1 hfind s hknown)
  | some t => rw [halone s t hs (List.find?_some hfind)]

theorem letter_inj {s t : Switch} {c : Char} (hs : s.letter? = some c) (ht : t.letter? = some c) :
    s = t := by
  cases s <;> cases hs <;> cases t <;> first | rfl | cases ht

theorem find?_letter_iff {known : List Switch} {s : Switch} {c : Char} :
    known.find? (fun t => t.letter? = some c) = some s ↔ s ∈ known ∧ s.letter? = some c := by
  rw [find?_iff fun s t hs ht => letter_inj (of_decide_eq_true hs) (of_decide_eq_true ht),
    decide_eq_true_iff]

theorem long_inj {s t : Switch} (h : s.long = t.long) : s = t := by
  revert h
  cases s <;> cases t <;> decide

theorem find?_long_iff {known : List Switch} {s : Switch} {name : List Char} :
    known.find? (fun t => t.long.toList = name) = some s ↔ s ∈ known ∧ s.long.toList = name := by
  rw [find?_iff fun s t hs ht => ?_, decide_eq_true_iff]
  exact long_inj (String.toList_inj.1 ((of_decide_eq_true hs).trans (of_decide_eq_true ht).symm))

theorem equals_not_mem_long (s : Switch) : '=' ∉ s.long.toList := by
  cases s <;> decide

/-- A switch with a value is no question. -/
theorem not_question {s : Switch} (hs : s.takesValue = true) : s ≠ .help ∧ s ≠ .version := by
  constructor <;> rintro rfl <;> cases hs

theorem Letters.takesValue (h : Letters verb text given last) {s : Switch} (hs : last = some s) :
    s.takesValue = true := by
  induction h with
  | nil => cases hs
  | flag _ _ _ _ ih => exact ih hs
  | valued _ _ hvalue hrest =>
    cases hrest with
    | next => exact Option.some.inj hs ▸ hvalue
    | equals | joined => cases hs

theorem Dashed.takesValue (h : Dashed verb a given last) {s : Switch} (hs : last = some s) :
    s.takesValue = true := by
  cases h with
  | flag | equals => cases hs
  | next _ hvalue => exact Option.some.inj hs ▸ hvalue
  | letters hletters => exact hletters.takesValue hs

theorem Letters.head {c : Char} (h : Letters verb (c :: text) given last) :
    ∃ s ∈ Switch.known verb, s.letter? = some c := by
  cases h <;> exact ⟨_, ‹_›, ‹_›⟩

/-- A dash is no letter. -/
theorem not_letters_dash : ¬ Letters verb ('-' :: text) given last := by
  intro h
  obtain ⟨s, -, hletter⟩ := h.head
  cases s <;> cases hletter

theorem dashed_letters_iff {c : Char} (hc : c ≠ '-') :
    Dashed verb (String.ofList ('-' :: c :: text)) given last ↔ Letters verb (c :: text) given last := by
  refine ⟨fun h => ?_, .letters⟩
  generalize ha : String.ofList ('-' :: c :: text) = a at h
  have htext := congrArg String.toList ha
  rw [String.toList_ofList] at htext
  cases h with
  | flag | next | equals => simp [hc] at htext
  | letters hletters =>
    rw [String.toList_ofList] at htext
    cases htext
    exact hletters

theorem not_dashed_dashes : ¬ Dashed verb "--" given last := by
  generalize ha : "--" = a
  intro hdashed
  have htext := congrArg String.toList ha
  cases hdashed with
  | flag | next => rename_i s _ _; cases s <;> simp [Switch.long] at htext
  | equals => simp at htext
  | letters hletters =>
    obtain ⟨rfl, rfl⟩ : '-' = _ ∧ [] = _ := by simpa using htext
    exact not_letters_dash hletters

theorem Dashed.not_plain (h : Dashed verb a given last) : ¬ Plain a := by
  unfold Plain
  cases h <;> simp

namespace Reading

theorem isSwitch_eq_false_iff : isSwitch a = false ↔ Plain a := by
  unfold isSwitch Plain
  split
  · rename_i c text ha
    simp [ha]
  · rename_i hne
    simpa using hne

/-- What is joined to a name. -/
def joined : Option (List Char) → List Char
  | none => []
  | some value => '=' :: value

theorem splitName_joined {name : List Char} (hname : '=' ∉ name) (before : List Char)
    (value : Option (List Char)) :
    splitName before (name ++ joined value) = (before.reverse ++ name, value) := by
  induction name generalizing before with
  | nil => cases value <;> simp [joined, splitName]
  | cons c name ih =>
    obtain ⟨hc, hname⟩ := not_or.1 (mt List.mem_cons.2 hname)
    rw [List.cons_append, splitName, if_neg (Ne.symm hc), ih hname, List.reverse_cons,
      List.append_assoc, List.singleton_append]

theorem exists_joined (text : List Char) :
    ∃ name value, '=' ∉ name ∧ text = name ++ joined value := by
  induction text with
  | nil => exact ⟨[], none, List.not_mem_nil, rfl⟩
  | cons c text ih =>
    obtain ⟨name, value, hname, rfl⟩ := ih
    by_cases hc : c = '='
    · exact ⟨[], some (name ++ joined value), List.not_mem_nil, by rw [hc]; rfl⟩
    · exact ⟨c :: name, value, by simpa [Ne.symm hc] using hname, rfl⟩

/-! ## States of a reading -/

variable {r r' : Reading}

/-- The switches read so far with their values, checked or not. -/
def switches (r : Reading) : List (Switch × String) :=
  r.given.reverse ++ match r.held with
    | some (.value s text) => [(s, text)]
    | _ => []

/-- The operands read so far, checked or not. -/
def texts (r : Reading) : List String :=
  r.operands.reverse ++ match r.held with
    | some (.operand _ text) => [text]
    | _ => []

/-- What was checked so far fits, and what is held comes next. -/
structure Sound (verb : Option Verb) (r : Reading) : Prop where
  checked : Fits verb r.given.reverse r.operands.reverse
  place : ∀ o text, r.held = some (.operand o text) → (places verb)[r.operands.length]? = some o
  value : ∀ s text, r.held = some (.value s text) → s.takesValue = true
  waiting : ∀ s, r.waiting = some s → s.takesValue = true ∧ r.held = none

theorem sound_empty (verb : Option Verb) : Sound verb {} where
  checked := ⟨allowed_nil, by simp [fill]⟩
  place _ _ h := nomatch h
  value _ _ h := nomatch h
  waiting _ h := nomatch h

/-- The reading with all checked and with more switches, perhaps one that waits for its value. -/
def after (r : Reading) (more : List (Switch × String)) (last : Option Switch) : Reading where
  given := (r.switches ++ more).reverse
  operands := r.texts.reverse
  waiting := last
  operandsOnly := r.operandsOnly

@[simp] theorem after_switches (more : List (Switch × String)) (last : Option Switch) :
    (r.after more last).switches = r.switches ++ more := by
  simp [after, switches]

@[simp] theorem after_texts (more : List (Switch × String)) (last : Option Switch) :
    (r.after more last).texts = r.texts := by
  simp [after, texts]

theorem after_after (given more : List (Switch × String)) (first last : Option Switch) :
    (r.after given first).after more last = r.after (given ++ more) last := by
  rw [after, after_switches, after_texts, List.append_assoc]
  rfl

theorem Sound.after (hfits : Fits verb (r.switches ++ more) r.texts)
    (hlast : ∀ s, last = some s → s.takesValue = true) : Sound verb (r.after more last) where
  checked := by simpa [Reading.after] using hfits
  place _ _ h := nomatch h
  value _ _ h := nomatch h
  waiting s h := ⟨hlast s h, rfl⟩

/-- The reading with all checked and with an operand that is not. -/
def withOperand (r : Reading) (o : Operand) (text : String) : Reading :=
  { r.after [] none with held := some (.operand o text) }

@[simp] theorem withOperand_switches (o : Operand) (text : String) :
    (r.withOperand o text).switches = r.switches := by
  simp [withOperand, after, switches]

@[simp] theorem withOperand_texts (o : Operand) (text : String) :
    (r.withOperand o text).texts = r.texts ++ [text] := by
  simp [withOperand, after, texts]

theorem Sound.withOperand {o : Operand} {text : String} (hfits : Fits verb r.switches r.texts)
    (ho : (places verb)[r.texts.length]? = some o) : Sound verb (r.withOperand o text) where
  checked := by simpa [Reading.withOperand, Reading.after] using hfits
  place := by
    rintro _ _ ⟨⟩
    simpa [Reading.withOperand, Reading.after] using ho
  value _ _ h := nomatch h
  waiting _ h := nomatch h

/-- The reading with the value that a switch waits for. -/
def withValue (r : Reading) (s : Switch) (text : String) : Reading :=
  { r with waiting := none, held := some (.value s text) }

theorem withValue_switches {s : Switch} {text : String} (hheld : r.held = none) :
    (r.withValue s text).switches = r.switches ++ [(s, text)] := by
  simp [withValue, switches, hheld]

theorem withValue_texts {s : Switch} {text : String} (hheld : r.held = none) :
    (r.withValue s text).texts = r.texts := by
  simp [withValue, texts, hheld]

theorem Sound.withValue {s : Switch} (text : String) (h : Sound verb r)
    (hwaiting : r.waiting = some s) : Sound verb (r.withValue s text) where
  checked := h.checked
  place _ _ h := nomatch h
  value := by
    rintro _ _ ⟨⟩
    exact (h.waiting s hwaiting).1
  waiting _ h := nomatch h

/-- The reading that has ended with some switches and operands. -/
def ofPieces (given : List (Switch × String)) (operands : List String) (ended : Bool) : Reading :=
  { given := given.reverse, operands := operands.reverse, operandsOnly := ended }

/-! ## Steps -/

theorem record_iff (r : Reading) {s : Switch} (text : String) (h : Allowed r.given.reverse)
    (hs : s ≠ .help ∧ s ≠ .version) :
    r.record s text = .ok r' ↔ Allowed (r.given.reverse ++ [(s, text)]) ∧
      r' = { r with given := (s, text) :: r.given } := by
  have hnew : ((r.given.lookup s).isSome && !s.repeats) = false ↔
      ∀ p ∈ r.given.reverse, s = p.1 → s.repeats = true := by
    rw [Bool.and_eq_false_imp, List.lookup_isSome_iff]
    simp only [beq_iff_eq, Bool.not_eq_false', List.mem_reverse, forall_exists_index, and_imp]
  have hbad : (((r.given.lookup s).isSome && !s.repeats) || !s.accepts text) = false ↔
      Allowed (r.given.reverse ++ [(s, text)]) := by
    rw [allowed_concat, Bool.or_eq_false_iff, hnew, Bool.not_eq_false']
    tauto
  rw [← hbad]
  unfold record
  split
  · rename_i hif
    simp [hif]
  · rename_i hif
    simp [hif, eq_comm]

/-- **What is held is checked** when the next argument comes. -/
theorem settle_iff (h : Sound verb r) (hwaiting : r.waiting = none) :
    r.settle = .ok r' ↔ Fits verb r.switches r.texts ∧ r' = r.after [] none := by
  obtain ⟨given, operands, held, waiting, operandsOnly⟩ := r
  obtain rfl : waiting = none := hwaiting
  obtain ⟨hgiven, hoperands⟩ := h.checked
  cases held with
  | none =>
    have hsame : after ⟨given, operands, none, none, operandsOnly⟩ [] none =
        ⟨given, operands, none, none, operandsOnly⟩ := by
      simp [after, switches, texts]
    rw [hsame]
    simp only [settle, switches, texts, List.append_nil, Except.ok.injEq]
    exact ⟨fun heq => ⟨⟨hgiven, hoperands⟩, heq.symm⟩, fun heq => heq.2.symm⟩
  | some held =>
    cases held with
    | value s text =>
      -- the value goes to the switches
      simp only [settle, switches, texts, after, List.append_nil]
      rw [record_iff ⟨given, operands, none, none, operandsOnly⟩ text hgiven
        (not_question (h.value s text rfl))]
      simp only [List.reverse_append, List.reverse_reverse, List.reverse_singleton,
        List.singleton_append]
      exact and_congr_left' ⟨fun hallowed => ⟨hallowed, hoperands⟩, Fits.allowed⟩
    | operand o text =>
      -- the operand goes to the next place
      have hplace : (places verb)[operands.reverse.length]? = some o := by
        rw [List.length_reverse]
        exact h.place o text rfl
      have hfits : Fits verb given.reverse (operands.reverse ++ [text]) ↔ o.accepts text = true := by
        refine ⟨fun hfits => ?_, fun ho => ⟨hgiven, fill_concat.2 ⟨hoperands, o, hplace, ho⟩⟩⟩
        obtain ⟨-, o', ho', haccepts⟩ := fill_concat.1 hfits.fills
        rw [hplace] at ho'
        exact Option.some.inj ho' ▸ haccepts
      simp only [settle, switches, texts, after, List.append_nil, hfits]
      split
      · rename_i haccepts
        simp [haccepts, eq_comm]
      · rename_i haccepts
        simp [haccepts]

/-- A switch with its value, behind what is checked before it. -/
theorem settle_record_iff (h : Sound verb r) (hwaiting : r.waiting = none) {s : Switch}
    (text : String) (hs : s ≠ .help ∧ s ≠ .version) :
    (r.settle >>= fun r => r.record s text) = .ok r' ↔
      Fits verb (r.switches ++ [(s, text)]) r.texts ∧ r' = r.after [(s, text)] none := by
  have hgiven : (r.after [] none).given.reverse = r.switches := by simp [after]
  have hmore : { r.after [] none with given := (s, text) :: (r.after [] none).given } =
      r.after [(s, text)] none := by
    simp [after]
  rw [bind_eq_ok_iff]
  constructor
  · rintro ⟨r₁, hsettle, hrecord⟩
    obtain ⟨⟨hallowed, hfills⟩, rfl⟩ := (settle_iff h hwaiting).1 hsettle
    rw [record_iff _ _ (by rwa [hgiven]) hs, hgiven, hmore] at hrecord
    exact ⟨⟨hrecord.1, hfills⟩, hrecord.2⟩
  · rintro ⟨⟨hallowed, hfills⟩, rfl⟩
    have hbefore := hallowed.of_append
    refine ⟨_, (settle_iff h hwaiting).2 ⟨⟨hbefore, hfills⟩, rfl⟩, ?_⟩
    rw [record_iff _ _ (by rwa [hgiven]) hs, hgiven, hmore]
    exact ⟨hallowed, rfl⟩

theorem takeFlag_iff (h : Sound verb r) (hwaiting : r.waiting = none) (s : Switch) :
    r.takeFlag verb s = .ok r' ↔
      Fits verb (r.switches ++ [(s, "")]) r.texts ∧ r' = r.after [(s, "")] none := by
  by_cases hs : s ≠ .help ∧ s ≠ .version
  · rw [← settle_record_iff h hwaiting "" hs]
    unfold takeFlag
    cases s <;> first | rfl | simp at hs
  · -- a question is answered, and there is no request
    have hquestion : ¬ Fits verb (r.switches ++ [(s, "")]) r.texts := fun hfits =>
      hs (hfits.allowed.unasked _ (List.mem_append_right _ (List.mem_singleton_self _)))
    simp only [hquestion, false_and, iff_false]
    unfold takeFlag
    intro hok
    obtain ⟨r₁, -, hok⟩ := ok_of_bind hok
    cases s <;> simp at hs <;> cases hok

theorem takeJoined_iff (h : Sound verb r) (hwaiting : r.waiting = none) {s : Switch}
    (hs : s.takesValue = true) (text : List Char) :
    r.takeJoined s text = .ok r' ↔
      Fits verb (r.switches ++ [(s, String.ofList text)]) r.texts ∧
        r' = r.after [(s, String.ofList text)] none :=
  settle_record_iff h hwaiting _ (not_question hs)

theorem takeOpen_iff (h : Sound verb r) (hwaiting : r.waiting = none) (s : Switch) :
    r.takeOpen s = .ok r' ↔
      Fits verb (r.switches ++ []) r.texts ∧ r' = r.after [] (some s) := by
  rw [List.append_nil]
  unfold takeOpen
  rw [bind_eq_ok_iff]
  constructor
  · rintro ⟨r₁, hsettle, hok⟩
    obtain ⟨hfits, rfl⟩ := (settle_iff h hwaiting).1 hsettle
    cases hok
    exact ⟨hfits, rfl⟩
  · rintro ⟨hfits, rfl⟩
    exact ⟨_, (settle_iff h hwaiting).2 ⟨hfits, rfl⟩, rfl⟩

theorem operandCount_eq (r : Reading) : r.operandCount = r.texts.length := by
  unfold operandCount texts
  cases r.held with
  | none => simp
  | some held => cases held <;> simp

theorem takeOperand_iff (h : Sound verb r) (hwaiting : r.waiting = none) (text : String) :
    r.takeOperand verb text = .ok r' ↔ Fits verb r.switches r.texts ∧
      ∃ o, (places verb)[r.texts.length]? = some o ∧ r' = r.withOperand o text := by
  have hplace : (verb.bind fun v => v.operands[r.operandCount]?) =
      (places verb)[r.texts.length]? := by
    rw [operandCount_eq]
    cases verb <;> simp [places]
  unfold takeOperand
  rw [hplace]
  cases (places verb)[r.texts.length]? with
  | none => simp
  | some o =>
    simp only [Option.some.injEq, exists_eq_left']
    rw [bind_eq_ok_iff]
    constructor
    · rintro ⟨r₁, hsettle, hok⟩
      obtain ⟨hfits, rfl⟩ := (settle_iff h hwaiting).1 hsettle
      cases hok
      exact ⟨hfits, rfl⟩
    · rintro ⟨hfits, rfl⟩
      exact ⟨_, (settle_iff h hwaiting).2 ⟨hfits, rfl⟩, rfl⟩

/-- The reading after an argument that is written with a dash. -/
def Takes (verb : Option Verb) (r r' : Reading) (given : List (Switch × String))
    (last : Option Switch) : Prop :=
  Fits verb (r.switches ++ given) r.texts ∧ r' = r.after given last

/-- A switch with a value ends the letters. -/
theorem takeLetters_valued (h : Sound verb r) (hwaiting : r.waiting = none) {s : Switch} {c : Char}
    (hknown : s ∈ Switch.known verb) (hletter : s.letter? = some c) (hvalue : s.takesValue = true) :
    takeLetters verb r (c :: text) = .ok r' ↔
      ∃ given last, LetterValue s text given last ∧ Takes verb r r' given last := by
  unfold takeLetters
  rw [find?_letter_iff.2 ⟨hknown, hletter⟩]
  dsimp only
  rw [if_pos hvalue]
  split
  · rw [takeOpen_iff h hwaiting]
    constructor
    · exact fun htaken => ⟨_, _, .next, htaken⟩
    · rintro ⟨_, _, ⟨⟩, htaken⟩
      exact htaken
  · rename_i text
    rw [takeJoined_iff h hwaiting hvalue]
    constructor
    · exact fun htaken => ⟨_, _, .equals text, htaken⟩
    · rintro ⟨_, _, hrest, htaken⟩
      cases hrest with
      | equals => exact htaken
      | joined _ hc => exact absurd rfl hc
  · rename_i hne hequals
    rw [takeJoined_iff h hwaiting hvalue]
    cases text with
    | nil => exact absurd rfl hne
    | cons d text =>
      have hd : d ≠ '=' := by
        rintro rfl
        exact hequals text rfl
      constructor
      · exact fun htaken => ⟨_, _, .joined text hd, htaken⟩
      · rintro ⟨_, _, hrest, htaken⟩
        cases hrest with
        | equals => exact absurd rfl hd
        | joined => exact htaken

/-- **Letters are taken as they are written.** -/
theorem takeLetters_iff (text : List Char) (h : Sound verb r) (hwaiting : r.waiting = none)
    (hsettled : text = [] → r.held = none) :
    takeLetters verb r text = .ok r' ↔
      ∃ given last, Letters verb text given last ∧ Takes verb r r' given last := by
  induction text generalizing r with
  | nil =>
    have hsettle : r.settle = .ok r := by
      unfold settle
      rw [hsettled rfl]
    obtain ⟨hfits, hsame⟩ := (settle_iff h hwaiting).1 hsettle
    constructor
    · rintro ⟨⟩
      exact ⟨[], none, .nil, by rwa [List.append_nil], hsame⟩
    · rintro ⟨_, _, ⟨⟩, -, rfl⟩
      rw [← hsame]
      rfl
  | cons c text ih =>
    cases hfind : (Switch.known verb).find? fun s => s.letter? = some c with
    | none =>
      unfold takeLetters
      rw [hfind]
      refine ⟨(nomatch ·), ?_⟩
      rintro ⟨_, _, hletters, -⟩
      obtain ⟨s, hs⟩ := hletters.head
      rw [find?_letter_iff.2 hs] at hfind
      cases hfind
    | some s =>
      obtain ⟨hknown, hletter⟩ := find?_letter_iff.1 hfind
      cases hvalue : s.takesValue with
      | true =>
        rw [takeLetters_valued h hwaiting hknown hletter hvalue]
        constructor
        · rintro ⟨given, last, hrest, htaken⟩
          exact ⟨given, last, .valued hknown hletter hvalue hrest, htaken⟩
        · rintro ⟨given, last, hletters, htaken⟩
          cases hletters with
          | flag _ hletter' hflag =>
            rw [letter_inj hletter' hletter, hvalue] at hflag
            cases hflag
          | valued _ hletter' _ hrest =>
            obtain rfl := letter_inj hletter hletter'
            exact ⟨given, last, hrest, htaken⟩
      | false =>
        unfold takeLetters
        rw [hfind]
        simp only [hvalue, Bool.false_eq_true, if_false]
        rw [bind_eq_ok_iff]
        -- the reading after the flag takes the rest
        have hrest (hfits : Fits verb (r.switches ++ [(s, "")]) r.texts) :=
          have hsound : Sound verb (r.after [(s, "")] none) := .after hfits fun _ h => nomatch h
          ih hsound rfl fun _ => rfl
        constructor
        · rintro ⟨r₁, hflag, htake⟩
          obtain ⟨hfits, rfl⟩ := (takeFlag_iff h hwaiting s).1 hflag
          obtain ⟨given, last, hletters, hfits', rfl⟩ := (hrest hfits).1 htake
          refine ⟨(s, "") :: given, last, .flag hknown hletter hvalue hletters, ?_, ?_⟩
          · simpa using hfits'
          · exact after_after _ _ _ _
        · rintro ⟨_, last, hletters, ⟨hallowed, hfills⟩, rfl⟩
          cases hletters with
          | @flag _ _ _ given _ _ hletter' _ hletters =>
            obtain rfl := letter_inj hletter hletter'
            rw [← List.singleton_append, ← List.append_assoc] at hallowed
            have hfits : Fits verb (r.switches ++ [(s, "")]) r.texts := ⟨hallowed.of_append, hfills⟩
            refine ⟨_, (takeFlag_iff h hwaiting s).2 ⟨hfits, rfl⟩,
              (hrest hfits).2 ⟨given, last, hletters, ?_, ?_⟩⟩
            · simpa using Fits.mk hallowed hfills
            · exact (after_after [(s, "")] given none last).symm
          | valued _ hletter' hvalue' =>
            rw [letter_inj hletter' hletter, hvalue] at hvalue'
            cases hvalue'

theorem takeLong_joined {s : Switch} (hknown : s ∈ Switch.known verb) (value : Option (List Char)) :
    r.takeLong verb (s.long.toList ++ joined value) =
      match s.takesValue, value with
      | true, some value => r.takeJoined s value
      | true, none => r.takeOpen s
      | false, some _ => .error .usage
      | false, none => r.takeFlag verb s := by
  unfold takeLong
  rw [splitName_joined (equals_not_mem_long s)]
  dsimp only [List.reverse_nil, List.nil_append]
  cases value <;> cases hvalue : s.takesValue <;> rw [find?_long_iff.2 ⟨hknown, rfl⟩] <;>
    simp only [hvalue]

/-- **What stands after two dashes is taken as it is written.** -/
theorem takeLong_iff (text : List Char) (h : Sound verb r) (hwaiting : r.waiting = none) :
    r.takeLong verb text = .ok r' ↔ ∃ given last,
      Dashed verb (String.ofList ('-' :: '-' :: text)) given last ∧ Takes verb r r' given last := by
  constructor
  · intro htake
    obtain ⟨name, value, hname, rfl⟩ := exists_joined text
    cases hfind : (Switch.known verb).find? fun s => s.long.toList = name with
    | none =>
      unfold takeLong at htake
      rw [splitName_joined hname] at htake
      dsimp only [List.reverse_nil, List.nil_append] at htake
      rw [hfind] at htake
      cases htake
    | some s =>
      obtain ⟨hknown, rfl⟩ := find?_long_iff.1 hfind
      rw [takeLong_joined hknown] at htake
      have hlong : String.ofList ('-' :: '-' :: s.long.toList) = "--" ++ s.long :=
        String.ext (by simp)
      cases hvalue : s.takesValue <;> cases value <;> rw [hvalue] at htake <;> dsimp only at htake
      case false.none =>
        refine ⟨_, none, ?_, (takeFlag_iff h hwaiting s).1 htake⟩
        simpa [joined, hlong] using Dashed.flag hknown hvalue
      case true.none =>
        refine ⟨_, some s, ?_, (takeOpen_iff h hwaiting s).1 htake⟩
        simpa [joined, hlong] using Dashed.next hknown hvalue
      case true.some value =>
        refine ⟨_, none, ?_, (takeJoined_iff h hwaiting hvalue value).1 htake⟩
        have hequals : String.ofList ('-' :: '-' :: (s.long.toList ++ joined (some value))) =
            "--" ++ s.long ++ "=" ++ String.ofList value :=
          String.ext (by simp [joined])
        rw [hequals]
        exact .equals _ hknown hvalue
      case false.some => cases htake
  · rintro ⟨given, last, hdashed, htaken⟩
    generalize ha : String.ofList ('-' :: '-' :: text) = a at hdashed
    have htext := congrArg String.toList ha
    rw [String.toList_ofList] at htext
    cases hdashed with
    | flag hknown hflag =>
      rename_i s
      have hlong : text = s.long.toList ++ joined none := by simpa [joined] using htext
      rw [hlong, takeLong_joined hknown, hflag]
      exact (takeFlag_iff h hwaiting s).2 htaken
    | next hknown hvalue =>
      rename_i s
      have hlong : text = s.long.toList ++ joined none := by simpa [joined] using htext
      rw [hlong, takeLong_joined hknown, hvalue]
      exact (takeOpen_iff h hwaiting s).2 htaken
    | equals value hknown hvalue =>
      rename_i s
      have hlong : text = s.long.toList ++ joined (some value.toList) := by
        simpa [joined] using htext
      rw [hlong, takeLong_joined hknown, hvalue]
      refine (takeJoined_iff h hwaiting hvalue _).2 ?_
      rw [String.ofList_toList]
      exact htaken
    | letters hletters =>
      rw [String.toList_ofList] at htext
      obtain ⟨rfl, -⟩ := List.cons.inj (List.cons.inj htext).2
      exact absurd hletters not_letters_dash

/-- **An argument is taken as it is written**, if no switch waits for it. -/
theorem take_iff (a : String) (h : Sound verb r) (hwaiting : r.waiting = none)
    (hopen : r.operandsOnly = false) :
    r.take verb a = .ok r' ↔
      (Plain a ∧ Fits verb r.switches r.texts ∧
        ∃ o, (places verb)[r.texts.length]? = some o ∧ r' = r.withOperand o a) ∨
      (a = "--" ∧ r' = { r with operandsOnly := true }) ∨
      ∃ given last, Dashed verb a given last ∧ Takes verb r r' given last := by
  have hplain : ∀ c text, a.toList = '-' :: c :: text → ¬ Plain a := fun c text ha h => h c text ha
  unfold take
  rw [hwaiting]
  dsimp only
  rw [hopen, if_neg Bool.false_ne_true]
  split
  · -- two dashes and nothing else
    rename_i ha
    obtain rfl : a = "--" := String.ext ha
    simp only [hplain _ _ ha, not_dashed_dashes, true_and, false_and, exists_false, false_or, or_false,
      Except.ok.injEq]
    exact eq_comm
  · -- the name of a switch
    rename_i text hne ha
    obtain rfl : a = String.ofList ('-' :: '-' :: text) := String.ext (by simpa using ha)
    have hdashes : String.ofList ('-' :: '-' :: text) ≠ "--" := by
      intro heq
      have htext := congrArg String.toList heq
      exact hne (by simpa using htext)
    simp only [hplain _ _ ha, hdashes, false_and, false_or]
    exact takeLong_iff text h hwaiting
  · -- letters
    rename_i c text hne hlong ha
    obtain rfl : a = String.ofList ('-' :: c :: text) := String.ext (by simpa using ha)
    have hc : c ≠ '-' := by
      rintro rfl
      exact hlong rfl
    have hdashes : String.ofList ('-' :: c :: text) ≠ "--" := by
      intro heq
      have htext := congrArg String.toList heq
      simp [hc] at htext
    simp only [hplain _ _ ha, hdashes, false_and, false_or, dashed_letters_iff hc]
    exact takeLetters_iff _ h hwaiting fun h => nomatch h
  · -- an operand
    rename_i hne
    have ha : Plain a := fun c text ha => hne c text ha
    have hdashes : a ≠ "--" := by
      rintro rfl
      exact ha '-' [] rfl
    have hdashed : ∀ given last, ¬ Dashed verb a given last := fun _ _ h => h.not_plain ha
    simp only [ha, hdashes, hdashed, true_and, false_and, exists_false, or_false]
    exact takeOperand_iff h hwaiting a

theorem take_waiting_iff {s : Switch} (a : String) (hwaiting : r.waiting = some s) :
    r.take verb a = .ok r' ↔ Plain a ∧ r' = r.withValue s a := by
  unfold take
  rw [hwaiting]
  dsimp only
  cases ha : isSwitch a with
  | true =>
    have hplain : ¬ Plain a := fun h => by
      rw [isSwitch_eq_false_iff.2 h] at ha
      cases ha
    simp [hplain]
  | false =>
    simp only [isSwitch_eq_false_iff.1 ha, Bool.false_eq_true, if_false, true_and, Except.ok.injEq]
    exact eq_comm

theorem finish_iff (h : Sound verb r) (hwaiting : r.waiting = none) :
    r.finish = .ok r' ↔
      Fits verb r.switches r.texts ∧ r' = ofPieces r.switches r.texts r.operandsOnly := by
  unfold finish
  rw [hwaiting]
  dsimp only
  rw [settle_iff h hwaiting]
  simp only [after, ofPieces, List.append_nil]

/-! ## Runs of steps -/

/-- After two dashes all arguments are operands. -/
theorem foldlM_take_ended (args : List String) (h : Sound verb r) (hwaiting : r.waiting = none)
    (hended : r.operandsOnly = true) :
    (args.foldlM (take verb) r >>= finish) = .ok r' ↔
      Fits verb r.switches (r.texts ++ args) ∧ r' = ofPieces r.switches (r.texts ++ args) true := by
  induction args generalizing r with
  | nil => rw [List.append_nil, List.foldlM_nil, pure_bind, finish_iff h hwaiting, hended]
  | cons a args ih =>
    have htake : r.take verb a = r.takeOperand verb a := by
      unfold take
      rw [hwaiting]
      dsimp only
      rw [hended, if_pos rfl]
    rw [List.foldlM_cons, bind_assoc, bind_eq_ok_iff, htake]
    constructor
    · rintro ⟨r₁, htaken, hrest⟩
      obtain ⟨hfits, o, ho, rfl⟩ := (takeOperand_iff h hwaiting a).1 htaken
      simpa using (ih (.withOperand hfits ho) rfl hended).1 hrest
    · intro hread
      have hfills : fill (places verb) (r.texts ++ [a] ++ args) = true := by
        simpa using hread.1.fills
      obtain ⟨htexts, o, ho, -⟩ := fill_concat.1 (fill_of_append hfills)
      have hfits : Fits verb r.switches r.texts := ⟨hread.1.allowed, htexts⟩
      refine ⟨_, (takeOperand_iff h hwaiting a).2 ⟨hfits, o, ho, rfl⟩, ?_⟩
      exact (ih (.withOperand hfits ho) rfl hended).2 (by simpa using hread)

/-- **Arguments at one place are read as they are written**: what is read before them fits together with
what they say, or there is an error. -/
theorem foldlM_take_iff (args : List String) (h : Sound verb r) (hopen : r.operandsOnly = false) :
    (args.foldlM (take verb) r >>= finish) = .ok r' ↔ ∃ given operands ended,
      Spells verb r.waiting args given operands ended ∧
      Fits verb (r.switches ++ given) (r.texts ++ operands) ∧
        r' = ofPieces (r.switches ++ given) (r.texts ++ operands) ended := by
  -- the induction is over the arguments, and what was read carries what they said
  induction args generalizing r with
  | nil =>
    rw [List.foldlM_nil, pure_bind]
    cases hwaiting : r.waiting with
    | none =>
      rw [finish_iff h hwaiting, hopen]
      constructor
      · exact fun hread => ⟨[], [], false, .nil, by simpa using hread⟩
      · rintro ⟨_, _, _, ⟨⟩, hread⟩
        simpa using hread
    | some s =>
      unfold finish
      rw [hwaiting]
      refine ⟨(nomatch ·), ?_⟩
      rintro ⟨_, _, _, ⟨⟩, -⟩
  | cons a args ih =>
    rw [List.foldlM_cons, bind_assoc, bind_eq_ok_iff]
    cases hwaiting : r.waiting with
    | some s =>
      have hheld := (h.waiting s hwaiting).2
      have hrest := ih (h.withValue a hwaiting) hopen
      rw [withValue_switches hheld, withValue_texts hheld] at hrest
      simp only [take_waiting_iff a hwaiting]
      constructor
      · rintro ⟨_, ⟨ha, rfl⟩, htake⟩
        obtain ⟨given, operands, ended, hspells, hread⟩ := hrest.1 htake
        exact ⟨(s, a) :: given, operands, ended, .value ha hspells, by simpa using hread⟩
      · rintro ⟨_, operands, ended, hspells, hread⟩
        cases hspells with
        | value ha hspells =>
          exact ⟨_, ⟨ha, rfl⟩, hrest.2 ⟨_, operands, ended, hspells, by simpa using hread⟩⟩
    | none =>
      have hended : Sound verb { r with operandsOnly := true } :=
        ⟨h.checked, h.place, h.value, h.waiting⟩
      simp only [take_iff a h hwaiting hopen]
      constructor
      · rintro ⟨_, ⟨ha, hfits, o, ho, rfl⟩ | ⟨rfl, rfl⟩ | ⟨given, last, ha, hfits, rfl⟩, htake⟩
        · obtain ⟨given, operands, ended, hspells, hread⟩ := (ih (.withOperand hfits ho) hopen).1 htake
          exact ⟨given, a :: operands, ended, .operand ha hspells, by simpa using hread⟩
        · have hread := (foldlM_take_ended args hended hwaiting rfl).1 htake
          exact ⟨[], args, true, .dashes args, by rw [List.append_nil]; exact hread⟩
        · have hsound := Sound.after hfits fun _ hs => ha.takesValue hs
          obtain ⟨more, operands, ended, hspells, hread⟩ := (ih hsound hopen).1 htake
          exact ⟨given ++ more, operands, ended, .dashed ha hspells, by simpa using hread⟩
      · rintro ⟨given, operands, ended, hspells, hread⟩
        cases hspells with
        | operand ha hspells =>
          rename_i operands
          have hfills : fill (places verb) (r.texts ++ [a] ++ operands) = true := by
            simpa using hread.1.fills
          obtain ⟨htexts, o, ho, -⟩ := fill_concat.1 (fill_of_append hfills)
          have hfits : Fits verb r.switches r.texts := ⟨hread.1.allowed.of_append, htexts⟩
          refine ⟨_, .inl ⟨ha, hfits, o, ho, rfl⟩, ?_⟩
          exact (ih (.withOperand hfits ho) hopen).2 ⟨_, _, _, hspells, by simpa using hread⟩
        | dashed ha hspells =>
          rename_i given more last
          have hallowed : Allowed (r.switches ++ given ++ more) := by simpa using hread.1.allowed
          have hfits : Fits verb (r.switches ++ given) r.texts :=
            ⟨hallowed.of_append, fill_of_append hread.1.fills⟩
          have hsound := Sound.after hfits fun _ hs => ha.takesValue hs
          refine ⟨_, .inr (.inr ⟨given, last, ha, hfits, rfl⟩), ?_⟩
          exact (ih hsound hopen).2 ⟨_, _, _, hspells, by simpa using hread⟩
        | dashes =>
          refine ⟨_, .inr (.inl ⟨rfl, rfl⟩), (foldlM_take_ended args hended hwaiting rfl).2 ?_⟩
          rw [List.append_nil] at hread
          exact hread

end Reading

end CallIndex.Cli
