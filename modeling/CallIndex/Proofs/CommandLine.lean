import CallIndex.Proofs.ArgumentGrammar
import Mathlib.Data.Nat.Digits.Defs
import Mathlib.Tactic.Ring

/-!
# Command lines

The arguments of a request are switches, the word of a command, and more switches among the operands. What
they ask for is said here without the reader of arguments, from the texts alone.

* `IdText`: the texts of ids. `Asks`: what a word, its operands and its switches ask for.
* `CommandLine`: **the arguments that ask for a request**.
* `readsFront_iff`: what stands before the word of a command.
* `parse_iff`: **a request is read from its command lines and from nothing else**.
-/

namespace CallIndex.Cli

open Reading

/-! ## What is asked for -/

/-- Decimal digits, and the number that they say. -/
structure Numeral (digits : List Char) (n : Nat) : Prop where
  ne_nil : digits ≠ []
  isDigit : ∀ c ∈ digits, c.isDigit = true
  value : n = Nat.ofDigits 10 (digits.reverse.map fun c => c.toNat - '0'.toNat)

/-- The text of an id: a numeral, after a sign or not, in the range of 64 bits. -/
inductive IdText : String → RowId → Prop where
  | unsigned {digits : List Char} {n : Nat} (h : Numeral digits n) (hn : n < 2 ^ 63) :
      IdText (String.ofList digits) n
  | plus {digits : List Char} {n : Nat} (h : Numeral digits n) (hn : n < 2 ^ 63) :
      IdText (String.ofList ('+' :: digits)) n
  | minus {digits : List Char} {n : Nat} (h : Numeral digits n) (hn : n ≤ 2 ^ 63) :
      IdText (String.ofList ('-' :: digits)) (-n)

def promptWord : PromptKind → String
  | .docstring => "docstring"
  | .explain => "explain"
  | .related => "related"

def tableWord : Table → String
  | .projects => "projects"
  | .documents => "documents"
  | .classes => "classes"
  | .methods => "methods"
  | .methodCalls => "calls"

/-- What the word of a command, its operands and the switches after it ask for. -/
inductive Asks (given : List (Switch × String)) : Verb → List String → Command → Prop where
  | init : Asks given .init [] (.init (given.lookup .force).isSome)
  | ingest {file : String} (hfile : file ≠ "") : Asks given .ingest [file] (.ingest file)
  | callees {text : String} {id : RowId} (hid : IdText text id) :
      Asks given .callees [text] (.ask (.callees id))
  | callers {text : String} {id : RowId} (hid : IdText text id) :
      Asks given .callers [text] (.ask (.callers id))
  | graph : Asks given .graph [] (.ask .graph)
  | method (signature document : String) :
      Asks given .method [signature, document] (.ask (.method signature document))
  | detail {text : String} {id : RowId} (hid : IdText text id) :
      Asks given .detail [text] (.ask (.detail id))
  | context (signature document : String) :
      Asks given .context [signature, document] (.ask (.context signature document))
  | related (signature document : String) :
      Asks given .related [signature, document] (.ask (.related signature document))
  | prompt (kind : PromptKind) (signature document : String)
      (hkind : (given.lookup .kind).getD "docstring" = promptWord kind) :
      Asks given .prompt [signature, document] (.ask (.prompt kind signature document))
  | list (table : Table) : Asks given .list [tableWord table] (.ask (.list table))
  | stats : Asks given .stats [] (.ask .stats)
  | clear : Asks given .clear [] (.clear (given.lookup .confirm).isSome)

/-- Arguments that ask for a request. A value that is given after the word of the command counts before one
that is given in front of it. -/
inductive CommandLine (args : List String) (r : Request) : Prop where
  | intro (before after operands : List String) (verb : Verb) (shared own : List (Switch × String))
      (ended : Bool) (hargs : args = before ++ verb.word :: after)
      (hbefore : Spells none none before shared [] false) (hshared : Allowed shared)
      (hafter : Spells (some verb) none after own operands ended) (hown : Allowed own)
      (hcommand : Asks own verb operands r.command)
      (hconfig : r.config = (own.lookup .config).or (shared.lookup .config))
      (hdatabase : r.database = (own.lookup .database).or (shared.lookup .database))
      (hjson : r.json = ((own.lookup .json).or (shared.lookup .json)).isSome)

/-! ## Words -/

/-- Digits after a number shift it. -/
theorem foldl_digits (digits : List Char) (m : Nat) :
    digits.foldl (fun n c => 10 * n + (c.toNat - '0'.toNat)) m =
      m * 10 ^ digits.length + Nat.ofDigits 10 (digits.reverse.map fun c => c.toNat - '0'.toNat) := by
  induction digits generalizing m with
  | nil => simp
  | cons c digits ih =>
    rw [List.foldl_cons, ih, List.reverse_cons, List.map_append, Nat.ofDigits_append,
      List.length_map, List.length_reverse, List.length_cons, List.map_singleton,
      Nat.ofDigits_singleton]
    ring

theorem digits?_iff {digits : List Char} {n : Nat} : digits? digits = some n ↔ Numeral digits n := by
  cases digits with
  | nil => exact ⟨(nomatch ·), fun h => absurd rfl h.ne_nil⟩
  | cons c digits =>
    unfold digits?
    dsimp only
    split
    · rename_i hall
      rw [foldl_digits, Nat.zero_mul, Nat.zero_add, Option.some.injEq]
      refine ⟨?_, fun h => h.value.symm⟩
      rintro rfl
      exact ⟨List.cons_ne_nil _ _, List.all_eq_true.1 hall, rfl⟩
    · rename_i hall
      exact ⟨(nomatch ·), fun h => absurd (List.all_eq_true.2 h.isDigit) hall⟩

theorem Numeral.head_isDigit {c : Char} {digits : List Char} {n : Nat} (h : Numeral (c :: digits) n) :
    c.isDigit = true :=
  h.isDigit c List.mem_cons_self

theorem idOf?_iff {text : String} {id : RowId} : idOf? text = some id ↔ IdText text id := by
  have hnumber (digits : List Char) (m : Int) :
      (do let n ← digits? digits; pure (n : Int)) = some m ↔
        ∃ n : Nat, Numeral digits n ∧ n = m := by
    simp [← digits?_iff, Option.bind_eq_some_iff]
  have hrange (m : Int) : (decide (-Int.pow 2 63 ≤ m) && decide (m < Int.pow 2 63)) = true ↔
      -2 ^ 63 ≤ m ∧ m < 2 ^ 63 := by
    simp
  unfold idOf?
  rw [Option.filter_eq_some_iff, hrange]
  constructor
  · -- the cases are the signs: a minus, a plus, or none
    rintro ⟨hvalue, hid⟩
    have htext : text = String.ofList text.toList := String.ofList_toList.symm
    split at hvalue <;> rename_i heq <;> obtain ⟨m, hm, rfl⟩ := Option.map_eq_some_iff.1 hvalue <;>
      obtain ⟨n, hn, rfl⟩ := (hnumber _ _).1 hm
    · rw [htext, heq]
      exact .minus hn (by omega)
    · rw [htext, heq]
      exact .plus hn (by omega)
    · rw [htext]
      exact .unsigned hn (by omega)
  · intro h
    cases h with
    | minus h hn =>
      rw [String.toList_ofList]
      exact ⟨Option.map_eq_some_iff.2 ⟨_, (hnumber _ _).2 ⟨_, h, rfl⟩, rfl⟩, by omega⟩
    | plus h hn =>
      rw [String.toList_ofList]
      exact ⟨Option.map_eq_some_iff.2 ⟨_, (hnumber _ _).2 ⟨_, h, rfl⟩, rfl⟩, by omega⟩
    | unsigned h hn =>
      rw [String.toList_ofList]
      refine ⟨?_, by omega⟩
      split
      · exact absurd h.head_isDigit (by decide)
      · exact absurd h.head_isDigit (by decide)
      · exact Option.map_eq_some_iff.2 ⟨_, (hnumber _ _).2 ⟨_, h, rfl⟩, rfl⟩

theorem promptKindOf?_iff {text : String} {kind : PromptKind} :
    promptKindOf? text = some kind ↔ text = promptWord kind := by
  constructor
  · intro h
    unfold promptKindOf? at h
    split at h <;> cases h <;> rfl
  · rintro rfl
    cases kind <;> rfl

theorem tableOf?_iff {text : String} {table : Table} :
    tableOf? text = some table ↔ text = tableWord table := by
  constructor
  · intro h
    unfold tableOf? at h
    split at h <;> cases h <;> rfl
  · rintro rfl
    cases table <;> rfl

theorem ofWord?_iff {a : String} {verb : Verb} : Verb.ofWord? a = some verb ↔ verb.word = a := by
  constructor
  · intro h
    simpa using List.find?_some h
  · rintro rfl
    cases verb <;> decide

theorem word_inj {verb other : Verb} (h : verb.word = other.word) : verb = other :=
  Option.some.inj ((ofWord?_iff.2 h).symm.trans (ofWord?_iff.2 rfl))

theorem plain_word (verb : Verb) : Plain verb.word := by
  unfold Plain
  cases verb <;> simp [Verb.word]

theorem plain_helpWord : Plain helpWord := by
  unfold Plain
  simp [helpWord]

/-- **A command is what its word, its operands and its switches ask for.** -/
theorem commandOf?_iff {given : List (Switch × String)} {verb : Verb} {operands : List String}
    {command : Command} (h : Allowed given) (ended : Bool) :
    fill verb.operands operands = true ∧
        commandOf? (ofPieces given operands ended) verb operands = some command ↔
      Asks given verb operands command := by
  have hlookup {s : Switch} (hs : s.repeats = false) :
      (ofPieces given operands ended).given.lookup s = given.lookup s := h.lookup_reverse hs
  have hhas {s : Switch} (hs : s.repeats = false) :
      (ofPieces given operands ended).has s = (given.lookup s).isSome :=
    congrArg Option.isSome (hlookup hs)
  constructor
  · rintro ⟨hfill, hcommand⟩
    unfold commandOf? at hcommand
    -- one case for each word with as many operands as it has, and the last one for any other number
    split at hcommand
    case h_1 =>
      rw [hhas rfl] at hcommand
      cases hcommand
      exact .init
    case h_2 =>
      cases hcommand
      exact .ingest (by simpa [fill, Verb.operands, Operand.accepts] using hfill)
    case h_3 | h_4 | h_7 =>
      obtain ⟨id, hid, rfl⟩ := Option.map_eq_some_iff.1 hcommand
      constructor
      exact idOf?_iff.1 hid
    case h_10 =>
      obtain ⟨kind, hkind, hcommand⟩ := Option.bind_eq_some_iff.1 hcommand
      cases hcommand
      rw [hlookup rfl] at hkind
      exact .prompt kind _ _ (promptKindOf?_iff.1 hkind)
    case h_11 =>
      obtain ⟨table, htable, rfl⟩ := Option.map_eq_some_iff.1 hcommand
      obtain rfl := tableOf?_iff.1 htable
      exact .list table
    case h_13 =>
      rw [hhas rfl] at hcommand
      cases hcommand
      exact .clear
    case h_14 => cases hcommand
    all_goals
      cases hcommand
      constructor
  · intro hasks
    cases hasks with
    | init => exact ⟨rfl, by rw [commandOf?, hhas rfl]⟩
    | clear => exact ⟨rfl, by rw [commandOf?, hhas rfl]⟩
    | ingest hfile => exact ⟨by simp [fill, Verb.operands, Operand.accepts, hfile], rfl⟩
    | callees hid | callers hid | detail hid =>
      have hid := idOf?_iff.2 hid
      simp [commandOf?, fill, Verb.operands, Operand.accepts, hid]
    | prompt kind signature document hkind =>
      refine ⟨rfl, ?_⟩
      rw [commandOf?, hlookup rfl, promptKindOf?_iff.2 hkind]
      rfl
    | list table =>
      have htable := tableOf?_iff.2 (rfl : tableWord table = tableWord table)
      simp [commandOf?, fill, Verb.operands, Operand.accepts, htable]
    | graph | stats | method | context | related => exact ⟨rfl, rfl⟩

/-! ## Up to the word of a command -/

section Shared

variable {r r' : Reading} {a : String} {args rest : List String} {verb : Verb}
  {given : List (Switch × String)}

theorem expectsWord_iff (hopen : r.operandsOnly = false) :
    r.expectsWord = true ↔ r.waiting = none := by
  unfold expectsWord
  rw [hopen, Bool.not_false, Bool.and_true, Option.isNone_iff_eq_none]

/-- What stands before the word of a command is no operand. -/
theorem Spells.head_dashed (h : Spells none none (a :: args) given [] false) :
    ∃ first last more, given = first ++ more ∧ Dashed none a first last ∧
      Spells none last args more [] false := by
  cases h with
  | dashed ha hrest => exact ⟨_, _, _, rfl, ha, hrest⟩

/-- What a reading becomes up to the word of a command, if it comes that far. -/
def ReadsFront (verb : Verb) (rest : List String) (r' r : Reading) (args : List String) : Prop :=
  ∃ before, readShared r args = .ok (before, verb, rest) ∧ before.finish = .ok r'

/-- What is written up to the word of a command, behind what a reading has. -/
def SpellsFront (verb : Verb) (rest : List String) (r' r : Reading) (args : List String) : Prop :=
  ∃ before given, args = before ++ verb.word :: rest ∧ Spells none r.waiting before given [] false ∧
    Fits none (r.switches ++ given) r.texts ∧ r' = ofPieces (r.switches ++ given) r.texts false

theorem readShared_word (hexpects : r.expectsWord = true) (verb : Verb) :
    readShared r (verb.word :: args) = .ok (r, verb, args) := by
  unfold readShared
  rw [hexpects, if_pos rfl, ofWord?_iff.2 rfl]

/-- What is no word of a command is taken, unless it asks for help. -/
theorem readsFront_take (h : r.expectsWord = true → Verb.ofWord? a = none ∧ a ≠ helpWord) :
    ReadsFront verb rest r' r (a :: args) ↔
      ∃ r₁, r.take none a = .ok r₁ ∧ ReadsFront verb rest r' r₁ args := by
  have hread : readShared r (a :: args) = r.take none a >>= fun r => readShared r args := by
    rw [readShared]
    cases hexpects : r.expectsWord with
    | false => simp
    | true =>
      obtain ⟨hverb, hhelp⟩ := h hexpects
      simp [hverb, hhelp]
  unfold ReadsFront
  rw [hread]
  simp only [bind_eq_ok_iff]
  constructor
  · rintro ⟨before, ⟨r₁, htake, hread⟩, hfinish⟩
    exact ⟨r₁, htake, before, hread, hfinish⟩
  · rintro ⟨r₁, htake, before, hread, hfinish⟩
    exact ⟨before, ⟨r₁, htake, hread⟩, hfinish⟩

theorem spellsFront_value {s : Switch} (h : Sound none r) (hwaiting : r.waiting = some s) :
    SpellsFront verb rest r' r (a :: args) ↔
      Plain a ∧ SpellsFront verb rest r' (r.withValue s a) args := by
  have hheld := (h.waiting s hwaiting).2
  unfold SpellsFront
  rw [hwaiting, withValue_switches hheld, withValue_texts hheld]
  constructor
  · rintro ⟨_, _, hargs, hspells, hread⟩
    cases hspells with
    | value ha hspells =>
      cases hargs
      exact ⟨ha, _, _, rfl, hspells, by simpa using hread⟩
  · rintro ⟨ha, before, given, rfl, hspells, hread⟩
    exact ⟨a :: before, _, rfl, .value ha hspells, by simpa using hread⟩

theorem spellsFront_word (hwaiting : r.waiting = none) (word : Verb) :
    SpellsFront verb rest r' r (word.word :: args) ↔ word = verb ∧ args = rest ∧
      Fits none r.switches r.texts ∧ r' = ofPieces r.switches r.texts false := by
  unfold SpellsFront
  rw [hwaiting]
  constructor
  · rintro ⟨before, given, hargs, hspells, hread⟩
    cases before with
    | nil =>
      obtain ⟨hsame, rfl⟩ := List.cons.inj hargs
      cases hspells
      exact ⟨word_inj hsame, rfl, by simpa using hread⟩
    | cons b before =>
      obtain ⟨rfl, -⟩ := List.cons.inj hargs
      obtain ⟨_, _, _, -, ha, -⟩ := hspells.head_dashed
      exact absurd (plain_word word) ha.not_plain
  · rintro ⟨rfl, rfl, hread⟩
    exact ⟨[], [], rfl, .nil, by simpa using hread⟩

/-- What stands before the word of a command and is no word itself is written with a dash. -/
theorem spellsFront_dashed (hwaiting : r.waiting = none) (hverb : Verb.ofWord? a = none) :
    SpellsFront verb rest r' r (a :: args) ↔ ∃ given last, Dashed none a given last ∧
      Fits none (r.switches ++ given) r.texts ∧ SpellsFront verb rest r' (r.after given last) args := by
  unfold SpellsFront
  rw [hwaiting]
  constructor
  · rintro ⟨before, given, hargs, hspells, hread⟩
    cases before with
    | nil =>
      obtain ⟨rfl, -⟩ := List.cons.inj hargs
      rw [ofWord?_iff.2 rfl] at hverb
      cases hverb
    | cons b before =>
      obtain ⟨rfl, rfl⟩ := List.cons.inj hargs
      obtain ⟨first, last, more, rfl, ha, hspells⟩ := hspells.head_dashed
      have hallowed : Allowed (r.switches ++ first ++ more) := by simpa using hread.1.allowed
      exact ⟨first, last, ha, ⟨hallowed.of_append, hread.1.fills⟩, before, more, rfl, hspells,
        by simpa using hread⟩
  · rintro ⟨first, last, ha, -, before, more, rfl, hspells, hread⟩
    exact ⟨a :: before, first ++ more, rfl, .dashed ha hspells, by simpa using hread⟩

/-- After two dashes there is no word of a command, and no operand before it. -/
theorem readShared_ended {result : Reading × Verb × List String} (hwaiting : r.waiting = none)
    (hended : r.operandsOnly = true) : readShared r args ≠ .ok result := by
  cases args with
  | nil => exact (nomatch ·)
  | cons a args =>
    have hword : r.expectsWord = false := by
      unfold expectsWord
      rw [hended, Bool.not_true, Bool.and_false]
    have htake : r.take none a = .error .usage := by
      unfold take
      rw [hwaiting]
      dsimp only
      rw [hended, if_pos rfl]
      rfl
    unfold readShared
    simp only [hword, Bool.false_eq_true, if_false, Bool.false_and, htake]
    exact (nomatch ·)

/-- **Arguments up to the word of a command are read as they are written.** -/
theorem readsFront_iff (args : List String) (h : Sound none r) (hopen : r.operandsOnly = false) :
    ReadsFront verb rest r' r args ↔ SpellsFront verb rest r' r args := by
  induction args generalizing r with
  | nil =>
    constructor
    · rintro ⟨_, ⟨⟩, -⟩
    · rintro ⟨before, _, hargs, -⟩
      cases before <;> cases hargs
  | cons a args ih =>
    cases hwaiting : r.waiting with
    | some s =>
      -- even the word of a command is the value of the switch that waits
      have hexpects : r.expectsWord ≠ true := by
        rw [Ne, expectsWord_iff hopen, hwaiting]
        exact (nomatch ·)
      rw [readsFront_take fun hword => absurd hword hexpects, spellsFront_value h hwaiting,
        ← ih (h.withValue a hwaiting) hopen]
      simp only [take_waiting_iff a hwaiting, and_assoc, exists_and_left, exists_eq_left]
    | none =>
      have hexpects : r.expectsWord = true := (expectsWord_iff hopen).2 hwaiting
      cases hverb : Verb.ofWord? a with
      | some word =>
        obtain rfl := ofWord?_iff.1 hverb
        unfold ReadsFront
        rw [readShared_word hexpects, spellsFront_word hwaiting, ← hopen, ← finish_iff h hwaiting]
        constructor
        · rintro ⟨_, ⟨⟩, hfinish⟩
          exact ⟨rfl, rfl, hfinish⟩
        · rintro ⟨rfl, rfl, hfinish⟩
          exact ⟨r, rfl, hfinish⟩
      | none =>
        rw [spellsFront_dashed hwaiting hverb]
        by_cases hhelp : a = helpWord
        · -- help is no request, and it is not written with a dash
          subst hhelp
          constructor
          · rintro ⟨_, hread, -⟩
            unfold readShared at hread
            simp [hexpects, hverb] at hread
          · rintro ⟨_, _, ha, -⟩
            exact absurd plain_helpWord ha.not_plain
        · rw [readsFront_take fun _ => ⟨hverb, hhelp⟩]
          have hafter {given : List (Switch × String)} {last : Option Switch}
              (ha : Dashed none a given last) (hfits : Fits none (r.switches ++ given) r.texts) :=
            ih (.after hfits fun _ hs => ha.takesValue hs) (r := r.after given last) hopen
          simp only [take_iff a h hwaiting hopen]
          constructor
          · rintro ⟨r₁, ⟨-, -, o, ho, -⟩ | ⟨rfl, rfl⟩ | ⟨given, last, ha, hfits, rfl⟩, hread⟩
            · cases ho
            · obtain ⟨_, hread, -⟩ := hread
              exact absurd hread (readShared_ended hwaiting rfl)
            · exact ⟨given, last, ha, hfits, (hafter ha hfits).1 hread⟩
          · rintro ⟨given, last, ha, hfits, hspells⟩
            exact ⟨_, .inr (.inr ⟨given, last, ha, hfits, rfl⟩), (hafter ha hfits).2 hspells⟩

end Shared

/-! ## Requests -/

theorem readFront_iff {args rest : List String} {verb : Verb} {r : Reading} :
    (∃ before, readShared {} args = .ok (before, verb, rest) ∧ before.finish = .ok r) ↔
      ∃ before given, args = before ++ verb.word :: rest ∧ Spells none none before given [] false ∧
        Fits none given [] ∧ r = ofPieces given [] false :=
  readsFront_iff args (sound_empty none) rfl

theorem readOwn_iff {args : List String} {verb : Verb} {r : Reading} :
    readOwn verb args = .ok r ↔ ∃ given operands ended,
      Spells (some verb) none args given operands ended ∧ Fits (some verb) given operands ∧
        r = ofPieces given operands ended :=
  foldlM_take_iff args (sound_empty (some verb)) rfl

/-- **A request is read from its command lines and from nothing else.** -/
theorem parse_iff {args : List String} {r : Request} : parse args = .ok r ↔ CommandLine args r := by
  have hvalue {own shared : List (Switch × String)} (hown : Allowed own) (hshared : Allowed shared)
      (operands : List String) (ended : Bool) {s : Switch} (hs : s.repeats = false) :
      ((ofPieces own operands ended).given.lookup s <|> (ofPieces shared [] false).given.lookup s) =
        (own.lookup s).or (shared.lookup s) := by
    rw [← hown.lookup_reverse hs, ← hshared.lookup_reverse hs]
    show (own.reverse.lookup s <|> shared.reverse.lookup s) = _
    cases own.reverse.lookup s <;> rfl
  have hoperands (own : List (Switch × String)) (operands : List String) (ended : Bool) :
      (ofPieces own operands ended).operands.reverse = operands := List.reverse_reverse operands
  unfold parse
  constructor
  · -- the front is finished only after the word and all behind it were read
    intro h
    obtain ⟨⟨r₁, verb, after⟩, hread, h⟩ := ok_of_bind h
    obtain ⟨r₂, hreadOwn, h⟩ := ok_of_bind h
    obtain ⟨own, operands, ended, hafter, hfits, rfl⟩ := readOwn_iff.1 hreadOwn
    rw [hoperands] at h
    split at h
    · cases h
    · rename_i command hcommand
      obtain ⟨r₃, hfinish, h⟩ := ok_of_bind h
      obtain ⟨before, shared, rfl, hbefore, hshared, rfl⟩ := readFront_iff.1 ⟨_, hread, hfinish⟩
      have hasks := (commandOf?_iff hfits.allowed ended).1 ⟨hfits.fills, hcommand⟩
      have hvalue {s : Switch} := hvalue (s := s) hfits.allowed hshared.allowed operands ended
      cases h
      exact ⟨before, after, operands, verb, shared, own, ended, rfl, hbefore, hshared.allowed, hafter,
        hfits.allowed, hasks, hvalue rfl, hvalue rfl, congrArg Option.isSome (hvalue rfl)⟩
  · rintro ⟨before, after, operands, verb, shared, own, ended, rfl, hbefore, hshared, hafter, hown,
      hasks, hconfig, hdatabase, hjson⟩
    obtain ⟨hfills, hcommand⟩ := (commandOf?_iff hown ended).2 hasks
    obtain ⟨r₁, hread, hfinish⟩ :=
      readFront_iff.2 ⟨before, shared, rfl, hbefore, ⟨hshared, rfl⟩, rfl⟩
    have hreadOwn := readOwn_iff.2 ⟨own, operands, ended, hafter, ⟨hown, hfills⟩, rfl⟩
    refine bind_eq_ok_iff.2 ⟨_, hread, bind_eq_ok_iff.2 ⟨_, hreadOwn, ?_⟩⟩
    rw [hoperands, hcommand]
    refine bind_eq_ok_iff.2 ⟨_, hfinish, ?_⟩
    dsimp only
    rw [hvalue hown hshared _ _ rfl, hvalue hown hshared _ _ rfl, hvalue hown hshared _ _ rfl,
      ← hconfig, ← hdatabase, ← hjson]

end CallIndex.Cli
