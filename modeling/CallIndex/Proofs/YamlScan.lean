import CallIndex.Proofs.YamlBlock
import CallIndex.Yaml.Token

/-!
# Mappings cut into tokens

A mapping in block form is a list of lines, each with a key, a colon and a value. The scanner is followed
from the front of a line to the place of its value, and from there to the front of the next line.

* `Passes`: the scanner comes from a state to another one. `Passes.trans`.
* `AtLine`, `AtValue`: a line, or the value of a key, comes next, with no key in doubt.
* `AtLine.key_value`: **a key and its colon are two tokens**, and the first key of a level opens it.
* `AtValue.plain`, `AtValue.scalar`: **the value of a key is one token**, whatever form it takes.
* `AtLine.run_end`: the end of the text closes all levels.
-/

namespace CallIndex.Yaml

/-! ## Words -/

/-- A character of a key or of a number. -/
def isWordChar (c : Char) : Bool := c.isLower || c.isDigit || c == '-'

/-- A key or a number: a letter or a digit, and what may follow it. -/
def isWord : List Char → Bool
  | [] => false
  | c :: more => (c.isLower || c.isDigit) && (c :: more).all isWordChar

theorem ne_of_isWordChar {c d : Char} (h : isWordChar c = true) (hd : isWordChar d = false) : c ≠ d := by
  rintro rfl
  rw [h] at hd
  cases hd

theorem isWordChar_spec {c : Char} (h : isWordChar c = true) :
    isBreak c = false ∧ isBlank c = false ∧ c ≠ ':' ∧ c ≠ '#' := by
  have hcode : ∀ {d : Char}, isWordChar d = false → c.toNat ≠ d.toNat := fun hd he =>
    ne_of_isWordChar h hd (Char.toNat_inj.1 he)
  refine ⟨?_, ?_, ne_of_isWordChar h (by decide), ne_of_isWordChar h (by decide)⟩
  · rw [← Bool.not_eq_true, isBreak_iff]
    rintro (hc | hc | hc | hc | hc)
    · exact hcode (d := '\r') (by decide) hc
    · exact hcode (d := '\n') (by decide) hc
    · exact hcode (d := Char.ofNat 0x85) (by decide) hc
    · exact hcode (d := Char.ofNat 0x2028) (by decide) hc
    · exact hcode (d := Char.ofNat 0x2029) (by decide) hc
  · have hspace : c ≠ ' ' := ne_of_isWordChar h (by decide)
    have htab : c ≠ '\t' := ne_of_isWordChar h (by decide)
    simp [isBlank, hspace, htab]

theorem hasKeyMark_of_not_mem {text : List Char} (h : ':' ∉ text) : hasKeyMark text = false := by
  induction text with
  | nil => rfl
  | cons c text ih =>
    have hc : c ≠ ':' := fun he => h (he ▸ List.mem_cons_self)
    have hrest := ih fun hmem => h (List.mem_cons_of_mem _ hmem)
    simp [hasKeyMark, hc, hrest]

theorem hasPair_of_none {p q : Char → Bool} {text : List Char} (h : ∀ c ∈ text, p c = false) :
    hasPair p q text = false := by
  induction text with
  | nil => rfl
  | cons c text ih =>
    obtain ⟨hc, hrest⟩ := List.forall_mem_cons.1 h
    cases text with
    | nil => rfl
    | cons d text => simp [hasPair, hc, ih hrest]

/-- A word is a plain scalar. -/
theorem isPlain_of_word {word : List Char} (h : isWord word = true) : IsPlain word := by
  have hall : ∀ c ∈ word, isWordChar c = true := by
    cases word with
    | nil => cases h
    | cons c more => exact List.all_eq_true.1 (Bool.and_eq_true_iff.1 h).2
  have hspec := fun c hc => isWordChar_spec (hall c hc)
  have hzero : isWordChar '\x00' = false := by decide
  refine ⟨fun c hc => (hspec c hc).1, fun c hc hb => ?_, ?_, hasPair_of_none fun c hc => ?_, fun he => ?_⟩
  · rw [(hspec c hc).2.1] at hb
    cases hb
  · exact hasKeyMark_of_not_mem fun hc => (hspec _ hc).2.2.1 rfl
  · have hne : c ≠ '\x00' := by
      rintro rfl
      rw [hall _ hc] at hzero
      cases hzero
    simp [isGapChar, (hspec c hc).1, (hspec c hc).2.1, hne]
  · have hspace := (hspec ' ' (List.mem_of_getLast? he)).2.1
    exact absurd hspace (by decide)

/-! ## Forms -/

theorem needsEscape_eq_false {text : List Char} (h : needsEscape text = false) :
    (∀ c ∈ text, isPrintable c = true) ∧ hasPair isSpace isBreak text = false := by
  obtain ⟨hall, hpair⟩ := Bool.or_eq_false_iff.1 h
  exact ⟨List.all_eq_true.1 (by simpa using hall), hpair⟩

/-- **The four forms of a scalar**, each with what it takes. Any text can stand in double quotes. -/
theorem scalarLine_cases (indent : Nat) (text : String) :
    (text.toList ≠ [] ∧ plainAllowed text.toList = true ∧
        scalarLine indent text = text.toList ++ ['\n']) ∨
      ('\n' ∉ text.toList ∧ singleAllowed text.toList = true ∧
        scalarLine indent text = '\'' :: singleChars indent false text.toList ++ ['\n']) ∨
      scalarLine indent text = '"' :: text.toList.flatMap doubleChar ++ ['"', '\n'] ∨
      (text.toList ≠ [] ∧ blockAllowed text.toList = true ∧
        scalarLine indent text = '|' :: blockMarks indentStep text.toList ++ '\n' ::
          blockChars indent true text.toList ++
            (if text.toList.getLast?.any isBreak then [] else ['\n'])) := by
  unfold scalarLine formOf
  by_cases hfeed : text.toList.contains '\n' = true
  · rw [if_pos hfeed]
    by_cases hblock : blockAllowed text.toList = true
    · rw [if_pos hblock]
      have hne : text.toList ≠ [] := by
        intro hnil
        rw [hnil] at hfeed
        cases hfeed
      exact Or.inr (Or.inr (Or.inr ⟨hne, hblock, rfl⟩))
    · rw [if_neg hblock]
      exact Or.inr (Or.inr (Or.inl rfl))
  rw [if_neg hfeed]
  by_cases hplain : (isTextWord text && plainAllowed text.toList) = true
  · rw [if_pos hplain]
    obtain ⟨hword, hallowed⟩ := Bool.and_eq_true_iff.1 hplain
    have hne : text.toList ≠ [] := by
      intro hnil
      have hempty : text = "" := String.toList_eq_nil_iff.1 hnil
      rw [hempty] at hword
      exact absurd hword (by decide)
    exact Or.inl ⟨hne, hallowed, rfl⟩
  · rw [if_neg hplain]
    by_cases hsingle : singleAllowed text.toList = true
    · rw [if_pos hsingle]
      exact Or.inr (Or.inl ⟨by simpa using hfeed, hsingle, rfl⟩)
    · rw [if_neg hsingle]
      exact Or.inr (Or.inr (Or.inl rfl))

namespace Scanner

variable {s t u : Scanner} {tokens : List Token} {indents : List Nat} {text rest : List Char}
  {column n : Nat}

/-! ## Steps -/

/-- The scanner comes from a state to another one in some steps. -/
def Passes (s : Scanner) (count : Nat) (t : Scanner) : Prop :=
  ∀ fuel, run (fuel + count) s = run fuel t

theorem Passes.refl (s : Scanner) : Passes s 0 s := fun _ => rfl

theorem Passes.of_step (h : s.step = some (false, t)) : Passes s 1 t := fun fuel => by
  rw [run, h]

theorem Passes.trans {k m : Nat} (hs : Passes s k t) (ht : Passes t m u) :
    Passes s (m + k) u := fun fuel => by
  have hcount : fuel + (m + k) = fuel + m + k := by omega
  rw [hcount, hs, ht]

/-- No block collection is closed by what stands as deep as the innermost one. -/
theorem closeBlocks_deep (h : ∀ i ∈ indents.head?, i ≤ column) (tokens : List Token) :
    closeBlocks (some column) indents tokens = (indents, tokens) := by
  cases indents with
  | nil => rfl
  | cons i indents =>
    have hi : i ≤ column := h i rfl
    rw [closeBlocks]
    simp [hi]

theorem dropStaleKeys_eq {key : Option KeyPlace} (hkeys : s.keys = [key])
    (hfresh : ∀ k ∈ key, isStale s.place k = false) : s.dropStaleKeys = some s := by
  obtain ⟨_, _, _, _, keys, _⟩ := s
  subst hkeys
  cases key with
  | none => rfl
  | some k => simp [dropStaleKeys, hfresh k rfl]

/-- **The next token is looked for behind the gaps**, if no possible key is over and no level ends. -/
theorem prepare_eq (hskip : skipGaps (s.rest.length + 1) s = t) {key : Option KeyPlace}
    (hkeys : t.keys = [key]) (hfresh : ∀ k ∈ key, isStale t.place k = false)
    (hdeep : ∀ i ∈ t.indents.head?, i ≤ t.place.column) : s.prepare = some t := by
  have hdrop := dropStaleKeys_eq hkeys hfresh
  have hunroll : t.unroll (some t.place.column) = t := by
    have hflow : t.inFlow = false := by simp [inFlow, hkeys]
    unfold unroll
    rw [hflow, closeBlocks_deep hdeep]
    rfl
  unfold prepare
  rw [hskip]
  simp only [bind, hdrop, Option.bind_some, hunroll]

theorem step_eq {c : Char} (hprepare : s.prepare = some t) (hrest : t.rest = c :: rest)
    (hfetch : t.fetch c rest = some u) : s.step = some (false, u) := by
  unfold step
  simp only [hprepare, bind, Option.bind_some, hrest, hfetch, Option.map_some]

/-! ## Gaps -/

/-- What a token may begin with: no gap, no byte mark and no comment. -/
def Begins (c : Char) : Prop :=
  isBlank c = false ∧ isBreak c = false ∧ isByteMark c = false ∧ c ≠ '#'

theorem toNextToken_begins {c : Char} (hc : Begins c) (inFlow keyAllowed : Bool) (place : Place)
    (rest : List Char) :
    toNextToken inFlow keyAllowed place (c :: rest) = (keyAllowed, place, c :: rest) := by
  obtain ⟨hblank, hbreak, hmark, -⟩ := hc
  have hreturn : c ≠ '\r' := ne_return_of_not_break hbreak
  obtain ⟨hspace, htab⟩ := ne_of_not_blank hblank
  rw [toNextToken]
  · simp [hspace, htab, hmark, hbreak]
  · rintro rest' rfl
    exact absurd rfl hreturn

theorem toNextToken_spaces (inFlow keyAllowed : Bool) (place : Place) (n : Nat) (rest : List Char) :
    toNextToken inFlow keyAllowed place (spaces n ++ rest) =
      toNextToken inFlow keyAllowed (place.right n) rest := by
  induction n generalizing place with
  | zero => rfl
  | succ n ih =>
    have hplace : (place.next ' ').right n = place.right (n + 1) := by
      simp only [Place.next, Place.right, Place.mk.injEq, true_and]
      have hsize : ' '.utf8Size = 1 := by decide
      omega
    rw [spaces_succ_append, toNextToken]
    · rw [if_pos (by simp), ih, hplace]
    · rintro rest' h
      exact absurd h (by decide)

theorem toNextToken_feed (keyAllowed : Bool) (place : Place) (rest : List Char) :
    toNextToken false keyAllowed place ('\n' :: rest) = toNextToken false true (place.down 1) rest := by
  have hsize : '\n'.utf8Size = 1 := by decide
  rw [toNextToken]
  · simp [isByteMark, show isBreak '\n' = true by decide, hsize]
  · rintro rest' h
    exact absurd h (by decide)

/-- Gaps without a comment are skipped at once. -/
theorem skipGaps_eq {keyAllowed : Bool} {place : Place} (fuel : Nat)
    (h : toNextToken s.inFlow s.keyAllowed s.place s.rest = (keyAllowed, place, text))
    (hcomment : text.head? ≠ some '#') :
    skipGaps (fuel + 1) s = { s with keyAllowed, place, rest := text } := by
  rw [skipGaps, h]
  dsimp only
  split
  · exact absurd rfl hcomment
  · rfl

/-! ## Lines and values -/

/-- A line comes next, at a column, with no key in doubt. -/
structure AtLine (s : Scanner) (tokens : List Token) (indents : List Nat) (column : Nat)
    (text : List Char) : Prop where
  tokens_eq : s.tokens = tokens
  indents_eq : s.indents = indents
  keys_eq : s.keys = [none]
  skips : ∃ place : Place, place.column = column ∧
    skipGaps (s.rest.length + 1) s = { s with keyAllowed := true, place, rest := text }

/-- The value of a key comes next, on the line of the key. -/
structure AtValue (s : Scanner) (tokens : List Token) (indents : List Nat) (text : List Char) :
    Prop where
  tokens_eq : s.tokens = tokens
  indents_eq : s.indents = indents
  keys_eq : s.keys = [none]
  noKey : s.keyAllowed = false
  rest_eq : s.rest = text
  deep : s.innerColumn ≤ s.place.column

/-- A text begins with a line. -/
theorem atLine_start {c : Char} (hc : Begins c) (rest : List Char) :
    AtLine { rest := c :: rest } [] [] 0 (c :: rest) where
  tokens_eq := rfl
  indents_eq := rfl
  keys_eq := rfl
  skips := by
    refine ⟨.start, rfl, ?_⟩
    rw [skipGaps_eq _ (toNextToken_begins hc _ _ _ _) (by simpa using hc.2.2.2)]

/-- Behind a line feed a line comes next, at the column of its first character. -/
theorem atLine_feed {c : Char} (hkeys : s.keys = [none]) (hc : Begins c)
    (hrest : s.rest = '\n' :: (spaces n ++ c :: rest)) :
    AtLine s s.tokens s.indents n (c :: rest) where
  tokens_eq := rfl
  indents_eq := rfl
  keys_eq := hkeys
  skips := by
    have hflow : s.inFlow = false := by simp [inFlow, hkeys]
    have hcolumn : ((s.place.down 1).right n).column = n := by simp
    refine ⟨(s.place.down 1).right n, hcolumn, skipGaps_eq _ ?_ (by simpa using hc.2.2.2)⟩
    rw [hflow, hrest, toNextToken_feed, toNextToken_spaces, toNextToken_begins hc]

/-- A scalar that takes its line with it leaves the next line. -/
theorem atLine_here {c : Char} (hkeys : s.keys = [none]) (hc : Begins c) (hkey : s.keyAllowed = true)
    (hrest : s.rest = c :: rest) (hcolumn : s.place.column = n) :
    AtLine s s.tokens s.indents n (c :: rest) where
  tokens_eq := rfl
  indents_eq := rfl
  keys_eq := hkeys
  skips := by
    refine ⟨s.place, hcolumn, skipGaps_eq _ ?_ (by simpa using hc.2.2.2)⟩
    rw [hrest, hkey, toNextToken_begins hc]

/-- A mapping as a value stands on the lines below its key. -/
theorem AtValue.atLine {c : Char} (h : AtValue s tokens indents ('\n' :: (spaces n ++ c :: rest)))
    (hc : Begins c) : AtLine s tokens indents n (c :: rest) := by
  have hline := atLine_feed h.keys_eq hc h.rest_eq
  rwa [h.tokens_eq, h.indents_eq] at hline

/-! ## Scalars -/

/-- What a plain scalar begins with is no mark. -/
theorem beginsPlain_of_noMark {c : Char} (hc : isOpeningMark c = false) (hblank : isBlank c = false)
    (hbreak : isBreak c = false) (hgap : c = '-' ∨ c = '?' ∨ c = ':' → atGap rest = false) :
    beginsPlain false c rest = true := by
  by_cases hmark : c = '-' ∨ c = '?' ∨ c = ':'
  · have hrest := hgap hmark
    have hhead : rest.head?.any isBlank = false := by
      cases rest with
      | nil => rfl
      | cons d more => exact (Bool.or_eq_false_iff.1 hrest).1
    rcases hmark with rfl | rfl | rfl <;> simp [beginsPlain, hrest, hhead]
  · have hindicator : isIndicator c = false := by
      simp only [not_or] at hmark
      simp only [isOpeningMark, Bool.or_eq_false_iff, beq_eq_false_iff_ne, ne_eq] at hc
      simp [isIndicator, hc, hmark]
    simp [beginsPlain, hblank, hbreak, hindicator]

theorem fetch_plain {c : Char} (rest : List Char) (hflow : s.inFlow = false) (hc : isOpeningMark c = false)
    (hblank : isBlank c = false) (hbreak : isBreak c = false)
    (hgap : c = '-' ∨ c = '?' ∨ c = ':' → atGap rest = false)
    (hcolumn : s.place.column = 0 → c ≠ '-' ∧ c ≠ '.') : s.fetch c rest = s.plain := by
  have hbegins := beginsPlain_of_noMark hc hblank hbreak hgap
  simp only [isOpeningMark, Bool.or_eq_false_iff, beq_eq_false_iff_ne, ne_eq] at hc
  have hhyphen : (decide (s.place.column = 0) && decide (c = '-') && atDocumentMark s.rest) = false := by
    by_cases hzero : s.place.column = 0
    · simp [(hcolumn hzero).1]
    · simp [hzero]
  have hdot : (decide (s.place.column = 0) && decide (c = '.') && atDocumentMark s.rest) = false := by
    by_cases hzero : s.place.column = 0
    · simp [(hcolumn hzero).2]
    · simp [hzero]
  have hword : ∀ d, (d = '-' ∨ d = '?' ∨ d = ':') → (decide (c = d) && atGap rest) = false := by
    intro d hd
    by_cases he : c = d
    · simp [hgap (he ▸ hd)]
    · simp [he]
  unfold fetch
  rw [hflow, hbegins]
  simp only [hhyphen, hdot, Bool.false_or, hword '-' (by simp), hword '?' (by simp),
    hword ':' (by simp)]
  simp [hc]

/-- A plain scalar where a key may begin: it may be one. -/
theorem plain_keyed {l : Lexeme} {gap : Gap} (hkeys : s.keys = [none]) (hkey : s.keyAllowed = true)
    (hread : readPlain false s.innerColumn s.place .empty s.rest = some (l, gap)) :
    ∃ required, s.plain = some
      { s with keys := [some ⟨s.tokens.length, s.place, required⟩], keyAllowed := gap.broken,
               tokens := .scalar .plain (String.ofList l.text) :: s.tokens, place := l.place,
               rest := l.rest } := by
  refine ⟨!s.inFlow && s.indent? = some s.place.column, ?_⟩
  obtain ⟨text, place, tokens, indents, keys, keyAllowed⟩ := s
  obtain rfl : keys = [none] := hkeys
  obtain rfl : keyAllowed = true := hkey
  have hread' : readPlain false (indents.head?.elim 0 (· + 1)) place .empty text = some (l, gap) := hread
  simp [plain, saveKey, dropKey, inFlow, innerColumn, indent?, hread', emit, after]

/-- A plain scalar where no key may begin. -/
theorem plain_value {l : Lexeme} {gap : Gap} (hkeys : s.keys = [none]) (hkey : s.keyAllowed = false)
    (hread : readPlain false s.innerColumn s.place .empty s.rest = some (l, gap)) :
    s.plain = some
      { s with keyAllowed := gap.broken, tokens := .scalar .plain (String.ofList l.text) :: s.tokens,
               place := l.place, rest := l.rest } := by
  obtain ⟨text, place, tokens, indents, keys, keyAllowed⟩ := s
  obtain rfl : keys = [none] := hkeys
  obtain rfl : keyAllowed = false := hkey
  have hread' : readPlain false (indents.head?.elim 0 (· + 1)) place .empty text = some (l, gap) := hread
  simp [plain, saveKey, inFlow, innerColumn, indent?, hread', emit, after]

/-! ## Keys -/

/-- Whether a key at a column opens a level. -/
def opensLevel (indents : List Nat) (column : Nat) : Bool :=
  !indents.head?.any fun i => column ≤ i

/-- The tokens in front of a key: a new level is opened. -/
def openTokens (indents : List Nat) (column : Nat) (tokens : List Token) : List Token :=
  if opensLevel indents column then .blockMappingStart :: tokens else tokens

/-- The levels at a key. -/
def openIndents (indents : List Nat) (column : Nat) : List Nat :=
  if opensLevel indents column then column :: indents else indents

/-- **A colon makes a key of the scalar before it**, and opens a level in front of the key. -/
theorem valueMark_keyed {k : KeyPlace} {scalar : Token} (hkeys : s.keys = [some k])
    (htokens : s.tokens = scalar :: tokens) (hnumber : k.token = tokens.length) :
    s.valueMark = some
      { s with keys := [none], keyAllowed := false, rest := s.rest.drop 1, place := s.place.right 1,
               indents := openIndents s.indents k.place.column,
               tokens := .value :: scalar :: .key :: openTokens s.indents k.place.column tokens } := by
  obtain ⟨text, place, tokens, indents, keys, keyAllowed⟩ := s
  obtain rfl : keys = [some k] := hkeys
  obtain rfl : tokens = scalar :: _ := htokens
  by_cases hopen : opensLevel indents k.place.column = true
  · have hroll : indents.head?.any (fun i => k.place.column ≤ i) = false := by
      simpa [opensLevel] using hopen
    simp [valueMark, emitBefore, roll, inFlow, indent?, hroll, emit, advance, openIndents, openTokens,
      hopen, hnumber]
    have htwo : tokens.length + 1 + 1 - tokens.length = 2 := by omega
    rw [htwo]
    rfl
  · have hroll : indents.head?.any (fun i => k.place.column ≤ i) = true := by
      simpa [opensLevel] using hopen
    simp [valueMark, emitBefore, roll, inFlow, indent?, hroll, emit, advance, openIndents, openTokens,
      hopen, hnumber]

theorem index_past (place : Place) (text : List Char) :
    (place.past text).index ≤ place.index + 4 * text.length := by
  induction text generalizing place with
  | nil => exact Nat.le_refl _
  | cons c text ih =>
    have hstep := ih (place.next c)
    have hsize : c.utf8Size ≤ 4 := c.utf8Size_le_four
    have hnext : (place.next c).index = place.index + c.utf8Size := rfl
    rw [Place.past_cons, List.length_cons]
    omega

/-- The first character of a word begins a plain scalar. -/
theorem isWord_head {c : Char} {more : List Char} (h : isWord (c :: more) = true) :
    isOpeningMark c = false ∧ isBlank c = false ∧ isBreak c = false ∧
      c ≠ '-' ∧ c ≠ '?' ∧ c ≠ ':' ∧ c ≠ '.' := by
  obtain ⟨hfirst, hall⟩ := Bool.and_eq_true_iff.1 h
  have hchar : isWordChar c = true := List.all_eq_true.1 hall c List.mem_cons_self
  have hspec := isWordChar_spec hchar
  have hne : ∀ {d : Char}, isWordChar d = false → c ≠ d := ne_of_isWordChar hchar
  have hgrave : c.toNat ≠ 0x60 := fun he =>
    hne (d := Char.ofNat 0x60) (by decide) (Char.toNat_inj.1 he)
  have hmark : isOpeningMark c = false := by
    simp only [isOpeningMark, Bool.or_eq_false_iff, beq_eq_false_iff_ne]
    refine ⟨?_, hgrave⟩
    repeat' apply And.intro
    all_goals exact hne (by decide)
  refine ⟨hmark, hspec.2.1, hspec.1, ?_, hne (by decide), hne (by decide), hne (by decide)⟩
  rintro rfl
  exact absurd hfirst (by decide)

theorem atDocumentMark_cons {c : Char} (hhyphen : c ≠ '-') (hdot : c ≠ '.') (rest : List Char) :
    atDocumentMark (c :: rest) = false := by
  unfold atDocumentMark
  split
  · rename_i h
    exact absurd (List.cons.inj h).1 hhyphen
  · rename_i h
    exact absurd (List.cons.inj h).1 hdot
  · rfl

theorem fetch_colon (hrest : atGap rest = true) : s.fetch ':' rest = s.valueMark := by
  simp [fetch, hrest]

/-- **A word is read up to what ends it.** -/
theorem readPlain_word (indent : Nat) (place : Place) {word : List Char} (hword : isWord word = true)
    {l : Lexeme} {gap : Gap}
    (hend : readPlain false indent (place.past word) .empty rest = some (l, gap)) :
    readPlain false indent place .empty (word ++ rest) = some (l.cons word, gap) := by
  obtain ⟨c, more, rfl⟩ : ∃ c more, word = c :: more := by
    cases word with
    | nil => cases hword
    | cons c more => exact ⟨c, more, rfl⟩
  obtain ⟨-, -, -, hhyphen, -, -, hdot⟩ := isWord_head hword
  have hnoBlank : ¬ ∃ d ∈ c :: more, isBlank d = true := by
    rintro ⟨d, hd, hb⟩
    have hchar := List.all_eq_true.1 (Bool.and_eq_true_iff.1 hword).2 d hd
    rw [(isWordChar_spec hchar).2.1] at hb
    cases hb
  exact readPlain_text .empty place (isPlain_of_word hword) (List.cons_ne_nil c more) rfl
    (fun h => h.elim (fun hne => absurd rfl hne) fun hb => absurd hb hnoBlank)
    (fun _ => atDocumentMark_cons hhyphen hdot _) (fun hne => absurd rfl hne) hend

/-- The level at a key is not deeper than the key. -/
theorem openIndents_le (hdeep : ∀ i ∈ indents.head?, i ≤ column) :
    ∀ i ∈ (openIndents indents column).head?, i ≤ column := by
  intro i hi
  unfold openIndents at hi
  split at hi
  · exact Nat.le_of_eq (Option.some.inj hi).symm
  · exact hdeep i hi

/-- The state behind a word that may be a key, in front of its colon. -/
def behindWord (place : Place) (required : Bool) (tokens : List Token) (indents : List Nat)
    (word rest : List Char) : Scanner where
  rest := ':' :: rest
  place := place.past word
  tokens := .scalar .plain (String.ofList word) :: tokens
  indents
  keys := [some ⟨tokens.length, place, required⟩]
  keyAllowed := false

/-- A word in front of a colon is a token, and it may be a key. -/
theorem AtLine.word_step {word : List Char} (h : AtLine s tokens indents column (word ++ ':' :: rest))
    (hword : isWord word = true) (hrest : atGap rest = true)
    (hdeep : ∀ i ∈ indents.head?, i ≤ column) :
    ∃ (place : Place) (required : Bool), place.column = column ∧
      s.step = some (false, behindWord place required tokens indents word rest) := by
  obtain ⟨place, rfl, hskip⟩ := h.skips
  obtain ⟨c, more, rfl⟩ : ∃ c more, word = c :: more := by
    cases word with
    | nil => cases hword
    | cons c more => exact ⟨c, more, rfl⟩
  obtain ⟨hmark, hblank, hbreak, hhyphen, hquestion, hcolon, hdot⟩ := isWord_head hword
  obtain ⟨text, place', tokens', indents', keys, keyAllowed⟩ := s
  obtain rfl : tokens' = tokens := h.tokens_eq
  obtain rfl : indents' = indents := h.indents_eq
  obtain rfl : keys = [none] := h.keys_eq
  have hprepare := prepare_eq hskip rfl (fun k hk => nomatch hk) hdeep
  have hread := readPlain_word (indents'.head?.elim 0 (· + 1)) place hword (readPlain_colon hrest)
  rw [Lexeme.cons, List.append_nil] at hread
  obtain ⟨required, hkeyed⟩ := plain_keyed (s := ⟨c :: more ++ ':' :: rest, place, tokens', indents',
    [none], true⟩) rfl rfl hread
  have hfetch := fetch_plain (s := ⟨c :: more ++ ':' :: rest, place, tokens', indents', [none], true⟩)
    (more ++ ':' :: rest) rfl hmark hblank hbreak (by simp [hhyphen, hquestion, hcolon])
    (fun _ => ⟨hhyphen, hdot⟩)
  exact ⟨place, required, rfl, step_eq hprepare rfl (hfetch.trans hkeyed)⟩

/-- A colon behind a word makes a key of it: it stands on the same line and not far away. -/
theorem colon_step {word : List Char} (place : Place) (required : Bool) (tokens : List Token)
    (hshort : word.length ≤ 200) (hrest : atGap rest = true)
    (hdeep : ∀ i ∈ indents.head?, i ≤ place.column) :
    (behindWord place required tokens indents word rest).step =
      some (false, ⟨rest, (place.past word).right 1,
        .value :: .scalar .plain (String.ofList word) :: .key :: openTokens indents place.column tokens,
        openIndents indents place.column, [none], false⟩) := by
  have hfresh : isStale (place.past word) ⟨tokens.length, place, required⟩ = false := by
    have hnear : ¬ place.index + 1024 < (place.past word).index := by
      have hindex := index_past place word
      omega
    simp [isStale, hnear]
  have hcolon : Begins ':' := ⟨by decide, by decide, by decide, by decide⟩
  have hprepare := prepare_eq (s := behindWord place required tokens indents word rest)
    (skipGaps_eq _ (toNextToken_begins hcolon _ _ _ _) (by simp)) rfl
    (fun k hk => Option.some.inj hk ▸ hfresh) (fun i hi => by
      have hle := hdeep i hi
      show i ≤ (place.past word).column
      rw [Place.column_past]
      omega)
  have hvalue := valueMark_keyed (s := behindWord place required tokens indents word rest) rfl rfl rfl
  exact step_eq hprepare rfl ((fetch_colon hrest).trans hvalue)

/-- **A key and its colon are two tokens.** The first key of a level opens the level. -/
theorem AtLine.key_value (word : List Char) (h : AtLine s tokens indents column (word ++ ':' :: rest))
    (hword : isWord word = true) (hshort : word.length ≤ 200) (hrest : atGap rest = true)
    (hdeep : ∀ i ∈ indents.head?, i ≤ column) :
    ∃ t, Passes s 2 t ∧ AtValue t
      (.value :: .scalar .plain (String.ofList word) :: .key :: openTokens indents column tokens)
      (openIndents indents column) rest := by
  obtain ⟨place, required, rfl, hfirst⟩ := h.word_step hword hrest hdeep
  have hsecond := colon_step place required tokens hshort hrest hdeep
  refine ⟨_, (Passes.of_step hfirst).trans (Passes.of_step hsecond), rfl, rfl, rfl, rfl, rfl, ?_⟩
  -- the value stands further right than the level of the key
  show (openIndents indents place.column).head?.elim 0 (· + 1) ≤ ((place.past word).right 1).column
  cases hopen : (openIndents indents place.column).head? with
  | none => exact Nat.zero_le _
  | some i =>
    have hle := openIndents_le hdeep i hopen
    rw [Place.column_right, Place.column_past, Option.elim_some]
    omega

/-! ## Values -/

/-- The value of a key is looked for behind a space. -/
theorem AtValue.prepare {c : Char} (h : AtValue s tokens indents (' ' :: c :: rest)) (hc : Begins c) :
    s.prepare = some { s with place := s.place.right 1, rest := c :: rest } := by
  have hskip : toNextToken s.inFlow s.keyAllowed s.place s.rest =
      (s.keyAllowed, s.place.right 1, c :: rest) := by
    have hspace := toNextToken_spaces s.inFlow s.keyAllowed s.place 1 (c :: rest)
    rw [toNextToken_begins hc] at hspace
    rw [h.rest_eq]
    exact hspace
  refine prepare_eq (skipGaps_eq _ hskip (by simpa using hc.2.2.2)) h.keys_eq
    (fun k hk => nomatch hk) fun i hi => ?_
  have hindent : s.innerColumn = i + 1 := by
    unfold innerColumn indent?
    rw [show s.indents.head? = some i from hi]
    rfl
  have hdeep := h.deep
  rw [hindent] at hdeep
  show i ≤ s.place.column + 1
  omega

/-- What a plain scalar may begin with. -/
def StartsPlain : List Char → Prop
  | [] => False
  | c :: more => Begins c ∧ isOpeningMark c = false ∧
      (c = '-' ∨ c = '?' ∨ c = ':' → atGap more = false)

/-- **A plain scalar as a value is one token**, up to what ends it. -/
theorem AtValue.plain_step {tail left : List Char} {last : Place} {gap : Gap}
    (h : AtValue s tokens indents (' ' :: (text ++ tail))) (hplain : IsPlain text)
    (hstart : StartsPlain text)
    (hend : readPlain false s.innerColumn ((s.place.right 1).past text) .empty tail =
      some (⟨[], last, left⟩, gap)) :
    s.step = some (false, { s with keyAllowed := gap.broken, place := last, rest := left,
                                   tokens := .scalar .plain (String.ofList text) :: tokens }) := by
  obtain ⟨c, more, rfl⟩ : ∃ c more, text = c :: more := by
    cases text with
    | nil => exact hstart.elim
    | cons c more => exact ⟨c, more, rfl⟩
  obtain ⟨hbegins, hmark, hgap⟩ := hstart
  have hfar : 0 < (s.place.right 1).column := Nat.succ_pos _
  have hflow : s.inFlow = false := by simp [inFlow, h.keys_eq]
  have hgap' : c = '-' ∨ c = '?' ∨ c = ':' → atGap (more ++ tail) = false := fun hc => by
    have hmore := hgap hc
    have hne : more ≠ [] := by
      rintro rfl
      cases hmore
    rw [atGap_append hne, hmore]
  have hread := readPlain_text .empty (s.place.right 1) hplain
    (List.cons_ne_nil c more) rfl
    (fun _ => Nat.le_trans h.deep (Nat.le_succ _)) (fun hzero => by omega)
    (fun hne => absurd rfl hne) hend
  have hprepare : s.prepare = some { s with place := s.place.right 1, rest := c :: (more ++ tail) } :=
    h.prepare hbegins
  have hfetch := fetch_plain (s := { s with place := s.place.right 1, rest := c :: (more ++ tail) })
    (more ++ tail) hflow hmark hbegins.1 hbegins.2.1 hgap' (fun hzero => by
      have hzero' : (s.place.right 1).column = 0 := hzero
      omega)
  have hvalue := plain_value (s := { s with place := s.place.right 1, rest := c :: (more ++ tail) })
    h.keys_eq h.noKey hread
  have hstep := step_eq hprepare rfl (hfetch.trans hvalue)
  rw [hstep]
  simp [Lexeme.cons, Gap.empty, h.tokens_eq]

/-- **A plain scalar as a value takes the rest of its line.** -/
theorem AtValue.plain {d : Char}
    (h : AtValue s tokens indents (' ' :: (text ++ '\n' :: (spaces n ++ d :: rest))))
    (hplain : IsPlain text) (hstart : StartsPlain text) (hd : Begins d) (hn : n < s.innerColumn) :
    ∃ t, Passes s 1 t ∧
      AtLine t (.scalar .plain (String.ofList text) :: tokens) indents n (d :: rest) := by
  have hstep := h.plain_step hplain hstart (readPlain_line hn hd.1 hd.2.1 rest)
  refine ⟨_, Passes.of_step hstep, ?_⟩
  obtain rfl := h.indents_eq
  exact atLine_here h.keys_eq hd rfl rfl (by simp)

/-- The last line ends the text. -/
theorem AtValue.plain_end (h : AtValue s tokens indents (' ' :: (text ++ ['\n'])))
    (hplain : IsPlain text) (hstart : StartsPlain text) :
    ∃ t, Passes s 1 t ∧ AtLine t (.scalar .plain (String.ofList text) :: tokens) indents 0 [] := by
  have hstep := h.plain_step hplain hstart readPlain_end
  exact ⟨_, Passes.of_step hstep, rfl, h.indents_eq, h.keys_eq, ((s.place.right 1).past text).down 1,
    rfl, skipGaps_eq _ rfl (by simp)⟩

/-- **A quoted scalar as a value is one token.** -/
theorem AtValue.quoted (read : Place → Gap → List Char → Option Lexeme) {c d : Char}
    {written : List Char}
    (h : AtValue s tokens indents (' ' :: c :: (written ++ '\n' :: (spaces n ++ d :: rest))))
    (hc : Begins c) (hd : Begins d)
    (hfetch : ∀ (t : Scanner) (more : List Char), t.fetch c more = t.quotedScalar read)
    (hread : ∀ place : Place, 0 < place.column → ∃ last : Place,
      read place .empty (written ++ '\n' :: (spaces n ++ d :: rest)) =
        some ⟨text, last, '\n' :: (spaces n ++ d :: rest)⟩) :
    ∃ t, Passes s 1 t ∧
      AtLine t (.scalar .quoted (String.ofList text) :: tokens) indents n (d :: rest) := by
  obtain ⟨last, hlast⟩ := hread ((s.place.right 1).right 1) (Nat.succ_pos _)
  have hvalue : ({ s with place := s.place.right 1,
                          rest := c :: (written ++ '\n' :: (spaces n ++ d :: rest)) } :
      Scanner).quotedScalar read =
        some { s with keyAllowed := false, place := last, rest := '\n' :: (spaces n ++ d :: rest),
                      tokens := .scalar .quoted (String.ofList text) :: tokens } := by
    simp [quotedScalar, saveKey, h.noKey, hlast, after, emit, h.tokens_eq]
  have hstep := step_eq (h.prepare hc) rfl ((hfetch _ _).trans hvalue)
  refine ⟨_, Passes.of_step hstep, ?_⟩
  obtain rfl := h.indents_eq
  exact atLine_feed h.keys_eq hd rfl

/-- **A block as a value is one token**, with the lines that belong to it. -/
theorem AtValue.block {d : Char} {written : List Char} {parent : Nat}
    (h : AtValue s tokens (parent :: indents) (' ' :: '|' :: written)) (hd : Begins d)
    (hread : ∀ place : Place, ∃ last : Place, last.column = n ∧
      readBlock .literal (some parent) place written = some ⟨text, last, d :: rest⟩) :
    ∃ t, Passes s 1 t ∧
      AtLine t (.scalar .literal (String.ofList text) :: tokens) (parent :: indents) n (d :: rest) := by
  obtain ⟨last, hcolumn, hlast⟩ := hread ((s.place.right 1).right 1)
  have hbar : Begins '|' := ⟨by decide, by decide, by decide, by decide⟩
  have hfetch : ({ s with place := s.place.right 1, rest := '|' :: written } : Scanner).fetch '|'
      written = some { s with keyAllowed := true, place := last, rest := d :: rest,
                              tokens := .scalar .literal (String.ofList text) :: tokens } := by
    have hindent : s.indents.head? = some parent := by rw [h.indents_eq]; rfl
    simp [fetch, inFlow, Scanner.block, dropKey, indent?, h.keys_eq, hindent, hlast, after, emit,
      h.tokens_eq]
  have hstep := step_eq (h.prepare hbar) rfl hfetch
  refine ⟨_, Passes.of_step hstep, ?_⟩
  rw [← h.indents_eq]
  exact atLine_here h.keys_eq hd rfl rfl hcolumn

/-! ## Values of every form -/

/-- A text that opens no mark begins with no mark. -/
theorem opensMark_cons {c : Char} (h : opensMark (c :: rest) = false) :
    isOpeningMark c = false ∧ ((c = '?' || c = '-') && atGap rest) = false := by
  unfold opensMark at h
  split at h
  · rename_i hnil
    cases hnil
  · cases h
  · cases h
  · rename_i hcons
    obtain ⟨rfl, rfl⟩ := List.cons.inj hcons
    exact Bool.or_eq_false_iff.1 h

theorem begins_of_printable {c : Char} (hprint : isPrintable c = true) (hbreak : isBreak c = false)
    (hspace : c ≠ ' ') (hmark : isOpeningMark c = false) : Begins c := by
  have hblank : isBlank c = false := by
    by_contra hb
    exact hspace (eq_space_of_blank hprint (by simpa using hb))
  have hcomment : c ≠ '#' := by
    rintro rfl
    exact absurd hmark (by decide)
  refine ⟨hblank, hbreak, ?_, hcomment⟩
  simp only [isPrintable, Bool.or_eq_true, Bool.and_eq_true, beq_iff_eq, bne_iff_ne,
    decide_eq_true_eq] at hprint
  simp only [isByteMark, beq_eq_false_iff_ne, ne_eq]
  omega

/-- **What can stand without quotes is a plain scalar.** -/
theorem isPlain_of_allowed (hne : text ≠ []) (h : plainAllowed text = true) :
    IsPlain text ∧ StartsPlain text := by
  simp only [plainAllowed, Bool.and_eq_true, Bool.not_eq_true', decide_eq_true_eq] at h
  obtain ⟨⟨⟨⟨⟨⟨hescape, hbreaks⟩, hopens⟩, hkey⟩, hcomment⟩, hfirst⟩, hlast⟩ := h
  obtain ⟨hprint, -⟩ := needsEscape_eq_false hescape
  have hbreak : ∀ c ∈ text, isBreak c = false := fun c hc => by
    simpa using (List.any_eq_false.1 hbreaks) c hc
  refine ⟨⟨hbreak, fun c hc hb => eq_space_of_blank (hprint c hc) hb, hkey, hcomment, hlast⟩, ?_⟩
  obtain ⟨c, more, rfl⟩ := List.exists_cons_of_ne_nil hne
  obtain ⟨hmark, hgap⟩ := opensMark_cons hopens
  have hspace : c ≠ ' ' := fun he => hfirst (he ▸ rfl)
  refine ⟨begins_of_printable (hprint c List.mem_cons_self) (hbreak c List.mem_cons_self) hspace hmark,
    hmark, ?_⟩
  rintro (rfl | rfl | rfl)
  · simpa using hgap
  · simpa using hgap
  · simpa using (Bool.or_eq_false_iff.1 hkey).1

theorem AtValue.single {parent : Nat} {d : Char}
    (h : AtValue s tokens indents (' ' :: ('\'' :: singleChars (parent + indentStep) false text ++
      ['\n'] ++ (spaces n ++ d :: rest)))) (hd : Begins d) (hfeed : '\n' ∉ text)
    (hallowed : singleAllowed text = true) :
    ∃ t, Passes s 1 t ∧
      AtLine t (.scalar .quoted (String.ofList text) :: tokens) indents n (d :: rest) := by
  obtain ⟨hescape, hpair⟩ := Bool.and_eq_true_iff.1 hallowed
  obtain ⟨hprint, hspace⟩ := needsEscape_eq_false (by simpa using hescape)
  have hshape : '\'' :: singleChars (parent + indentStep) false text ++ ['\n'] ++
      (spaces n ++ d :: rest) =
        '\'' :: (singleChars (parent + indentStep) false text ++ '\n' :: (spaces n ++ d :: rest)) := by
    simp
  rw [hshape] at h
  have hquote : Begins '\'' := ⟨by decide, by decide, by decide, by decide⟩
  refine h.quoted readSingle hquote hd (fun t more => by simp [fetch])
    fun place hplace => ?_
  have hdeep : 0 < parent + indentStep := Nat.succ_pos _
  have hread := readSingle_written .empty place ('\n' :: (spaces n ++ d :: rest)) hdeep hprint hfeed
    hspace
    (by simpa using hpair) (by decide) (fun _ => hplace) (fun _ hne => absurd rfl hne)
    (fun hgap => nomatch hgap) (by simp)
  exact hread

theorem AtValue.double {d : Char} (h : AtValue s tokens indents
      (' ' :: ('"' :: text.flatMap doubleChar ++ ['"', '\n'] ++ (spaces n ++ d :: rest))))
    (hd : Begins d) : ∃ t, Passes s 1 t ∧
      AtLine t (.scalar .quoted (String.ofList text) :: tokens) indents n (d :: rest) := by
  have hshape : '"' :: text.flatMap doubleChar ++ ['"', '\n'] ++ (spaces n ++ d :: rest) =
      '"' :: ((text.flatMap doubleChar ++ ['"']) ++ '\n' :: (spaces n ++ d :: rest)) := by
    simp
  rw [hshape] at h
  have hquote : Begins '"' := ⟨by decide, by decide, by decide, by decide⟩
  refine h.quoted readDouble hquote hd (fun t more => by simp [fetch])
    fun place hplace => ?_
  have hread := readDouble_written .empty place text ('\n' :: (spaces n ++ d :: rest)) rfl hplace
  rw [List.append_assoc]
  exact hread

theorem AtValue.literal {parent : Nat} {d : Char} (h : AtValue s tokens (parent :: indents)
      (' ' :: ('|' :: blockMarks indentStep text ++ '\n' ::
        blockChars (parent + indentStep) true text ++
          (if text.getLast?.any isBreak then [] else ['\n']) ++ (spaces parent ++ d :: rest))))
    (hd : Begins d) (hne : text ≠ []) (hallowed : blockAllowed text = true) :
    ∃ t, Passes s 1 t ∧ AtLine t (.scalar .literal (String.ofList text) :: tokens) (parent :: indents)
      parent (d :: rest) := by
  obtain ⟨hescape, -⟩ := Bool.and_eq_true_iff.1 hallowed
  obtain ⟨hprint, -⟩ := needsEscape_eq_false (by simpa using hescape)
  have hshape : '|' :: blockMarks indentStep text ++ '\n' ::
      blockChars (parent + indentStep) true text ++
        (if text.getLast?.any isBreak then [] else ['\n']) ++ (spaces parent ++ d :: rest) =
      '|' :: (blockMarks indentStep text ++ '\n' :: (blockChars (parent + indentStep) true text ++
        (if text.getLast?.any isBreak then [] else ['\n']) ++ (spaces parent ++ d :: rest))) := by
    simp
  rw [hshape] at h
  exact h.block hd fun place => readBlock_written hne hprint (Nat.le_refl _) hd.2.1 hd.1

/-- **The value of a key is one token that holds the text**, whatever form the text takes. -/
theorem AtValue.scalar (parent : Nat) {d : Char} {text : String}
    (h : AtValue s tokens (parent :: indents)
      (' ' :: (scalarLine (parent + indentStep) text ++ (spaces parent ++ d :: rest))))
    (hd : Begins d) :
    ∃ t style, Passes s 1 t ∧
      AtLine t (.scalar style text :: tokens) (parent :: indents) parent (d :: rest) := by
  have htext : String.ofList text.toList = text := String.ofList_toList
  rcases scalarLine_cases (parent + indentStep) text with ⟨hne, hallowed, hline⟩ |
    ⟨hfeed, hallowed, hline⟩ | hline | ⟨hne, hallowed, hline⟩ <;> rw [hline] at h
  · obtain ⟨hscalar, hstart⟩ := isPlain_of_allowed hne hallowed
    have hinner : s.innerColumn = parent + 1 := by
      unfold innerColumn indent?
      rw [h.indents_eq]
      rfl
    have hvalue : AtValue s tokens (parent :: indents)
        (' ' :: (text.toList ++ '\n' :: (spaces parent ++ d :: rest))) := by simpa using h
    obtain ⟨t, ht⟩ := hvalue.plain hscalar hstart hd (by omega)
    exact ⟨t, .plain, htext ▸ ht⟩
  · obtain ⟨t, ht⟩ := AtValue.single h hd hfeed hallowed
    exact ⟨t, .quoted, htext ▸ ht⟩
  · obtain ⟨t, ht⟩ := AtValue.double h hd
    exact ⟨t, .quoted, htext ▸ ht⟩
  · obtain ⟨t, ht⟩ := AtValue.literal h hd hne hallowed
    exact ⟨t, .literal, htext ▸ ht⟩

/-! ## Entries -/

theorem isWord_startsPlain {word : List Char} (h : isWord word = true) : StartsPlain word := by
  cases word with
  | nil => cases h
  | cons c more =>
    obtain ⟨hmark, hblank, hbreak, hhyphen, hquestion, hcolon, -⟩ := isWord_head h
    have hchar := List.all_eq_true.1 (Bool.and_eq_true_iff.1 h).2 c List.mem_cons_self
    have hfeff : c ≠ Char.ofNat 0xFEFF := ne_of_isWordChar hchar (by decide)
    have hbyte : isByteMark c = false := by
      simp only [isByteMark, beq_eq_false_iff_ne, ne_eq]
      exact fun he => hfeff (Char.toNat_inj.1 he)
    refine ⟨⟨hblank, hbreak, hbyte, (isWordChar_spec hchar).2.2.2⟩, hmark, ?_⟩
    simp [hhyphen, hquestion, hcolon]

/-- A key of the innermost level opens no other one. -/
theorem openTokens_same (indents : List Nat) (column : Nat) (tokens : List Token) :
    openTokens (column :: indents) column tokens = tokens ∧
      openIndents (column :: indents) column = column :: indents := by
  have hsame : opensLevel (column :: indents) column = false := by simp [opensLevel]
  simp [openTokens, openIndents, hsame]

/-- **An entry of two words is four tokens.** -/
theorem AtLine.word_entry (key : List Char) {word : List Char} {d : Char}
    (h : AtLine s tokens (column :: indents) column
      (key ++ ':' :: ' ' :: (word ++ '\n' :: (spaces column ++ d :: rest))))
    (hkey : isWord key = true) (hshort : key.length ≤ 200) (hword : isWord word = true)
    (hd : Begins d) :
    ∃ t, Passes s 3 t ∧ AtLine t (.scalar .plain (String.ofList word) :: .value ::
      .scalar .plain (String.ofList key) :: .key :: tokens) (column :: indents) column (d :: rest) := by
  obtain ⟨t, hkeyPasses, hvalue⟩ := h.key_value key hkey hshort rfl (fun i hi =>
    Nat.le_of_eq (Option.some.inj hi).symm)
  obtain ⟨htokens, hindents⟩ := openTokens_same indents column tokens
  rw [htokens, hindents] at hvalue
  have hinner : t.innerColumn = column + 1 := by
    unfold innerColumn indent?
    rw [hvalue.indents_eq]
    rfl
  obtain ⟨u, hwordPasses, hline⟩ := hvalue.plain (isPlain_of_word hword) (isWord_startsPlain hword) hd
    (by omega)
  exact ⟨u, hkeyPasses.trans hwordPasses, hline⟩

/-- The last entry of two words ends the text. -/
theorem AtLine.word_entry_end (key : List Char) {word : List Char}
    (h : AtLine s tokens (column :: indents) column (key ++ ':' :: ' ' :: (word ++ ['\n'])))
    (hkey : isWord key = true) (hshort : key.length ≤ 200) (hword : isWord word = true) :
    ∃ t, Passes s 3 t ∧ AtLine t (.scalar .plain (String.ofList word) :: .value ::
      .scalar .plain (String.ofList key) :: .key :: tokens) (column :: indents) 0 [] := by
  obtain ⟨t, hkeyPasses, hvalue⟩ := h.key_value key hkey hshort rfl (fun i hi =>
    Nat.le_of_eq (Option.some.inj hi).symm)
  obtain ⟨htokens, hindents⟩ := openTokens_same indents column tokens
  rw [htokens, hindents] at hvalue
  obtain ⟨u, hwordPasses, hline⟩ := hvalue.plain_end (isPlain_of_word hword) (isWord_startsPlain hword)
  exact ⟨u, hkeyPasses.trans hwordPasses, hline⟩

/-! ## The end -/

/-- Each collection that is closed gives a token. -/
theorem closeBlocks_count (column : Option Nat) (indents : List Nat) (tokens : List Token) :
    ∃ kept closed, closeBlocks column indents tokens =
      (kept, List.replicate closed .blockEnd ++ tokens) ∧ kept.length + closed = indents.length := by
  induction indents generalizing tokens with
  | nil => exact ⟨[], 0, rfl, rfl⟩
  | cons i indents ih =>
    rw [closeBlocks]
    split
    · exact ⟨i :: indents, 0, rfl, rfl⟩
    · obtain ⟨kept, closed, hclose, hcount⟩ := ih (.blockEnd :: tokens)
      refine ⟨kept, closed + 1, ?_, by rw [List.length_cons]; omega⟩
      rw [hclose, List.replicate_succ', List.append_assoc]
      rfl

theorem closeBlocks_all (indents : List Nat) (tokens : List Token) :
    closeBlocks none indents tokens = ([], List.replicate indents.length .blockEnd ++ tokens) := by
  induction indents generalizing tokens with
  | nil => rfl
  | cons i indents ih =>
    rw [closeBlocks, ih, List.length_cons, List.replicate_succ', List.append_assoc]
    rfl

/-- **The end of the text closes all levels.** -/
theorem AtLine.run_end (h : AtLine s tokens indents column []) (fuel : Nat) :
    ∃ t, run (fuel + 1) s = some t ∧
      t.tokens = List.replicate indents.length .blockEnd ++ tokens := by
  obtain ⟨place, rfl, hskip⟩ := h.skips
  obtain ⟨kept, closed, hclose, hcount⟩ := closeBlocks_count (some place.column) indents tokens
  have hprepare : s.prepare = some { s with keyAllowed := true, place, rest := [], indents := kept,
                                            tokens := List.replicate closed .blockEnd ++ tokens } := by
    have hdrop := dropStaleKeys_eq (s := { s with keyAllowed := true, place, rest := [] }) h.keys_eq
      (fun k hk => nomatch hk)
    unfold prepare
    rw [hskip, hdrop]
    simp [unroll, inFlow, h.keys_eq, h.tokens_eq, h.indents_eq, hclose]
  refine ⟨_, by
    rw [run, step, hprepare]
    simp only [bind, Option.bind_some, finish, unroll, inFlow, h.keys_eq, closeBlocks_all]
    rfl, ?_⟩
  show List.replicate kept.length .blockEnd ++ (List.replicate closed .blockEnd ++ tokens) = _
  rw [← List.append_assoc, List.replicate_append_replicate, hcount]

end Scanner

/-! ## Allowed characters -/

/-- Letters of escapes may stand in a text. -/
theorem isAllowed_of_letterEscape {c e : Char} (h : letterEscape? e = some c) : isAllowed e = true := by
  unfold letterEscape? at h
  split at h
  all_goals first | decide | cases h

theorem isAllowed_of_mem_hexDigits {count n : Nat} {c : Char} (h : c ∈ hexDigits count n) :
    isAllowed c = true := by
  induction count generalizing n with
  | zero => cases h
  | succ count ih =>
    rw [hexDigits, List.mem_append, List.mem_singleton] at h
    rcases h with h | rfl
    · exact ih h
    · have hall : ∀ i : Fin 16, isAllowed (upperHex i) = true := by decide
      exact hall ⟨n % 16, Nat.mod_lt n (by decide)⟩

/-- **Whatever stands between double quotes is allowed.** -/
theorem isAllowed_of_mem_doubleChar {c d : Char} (h : d ∈ doubleChar c) : isAllowed d = true := by
  rcases doubleChar_cases c with ⟨hprint, -, -, -, hc⟩ | ⟨e, he, -, -, hc⟩ |
    ⟨mark, count, hmark, -, -, hc⟩ <;> rw [hc] at h
  · obtain rfl := List.mem_singleton.1 h
    exact isAllowed_of_printable hprint
  · rcases List.mem_cons.1 h with rfl | h
    · decide
    · obtain rfl := List.mem_singleton.1 h
      exact isAllowed_of_letterEscape he
  · rcases List.mem_cons.1 h with rfl | h
    · decide
    · rcases List.mem_cons.1 h with rfl | h
      · rcases hmark with ⟨rfl, -⟩ | ⟨rfl, -⟩ | ⟨rfl, -⟩ <;> decide
      · exact isAllowed_of_mem_hexDigits h

theorem isAllowed_of_mem_spaces {count : Nat} {c : Char} (h : c ∈ spaces count) : isAllowed c = true := by
  obtain rfl := List.eq_of_mem_replicate h
  decide

theorem isAllowed_of_mem_indent {indent : Nat} {afterBreak : Bool} {c : Char}
    (h : c ∈ if afterBreak then spaces indent else []) : isAllowed c = true := by
  split at h
  · exact isAllowed_of_mem_spaces h
  · cases h

theorem isAllowed_of_mem_singleChars {text : List Char} {indent : Nat} {afterBreak : Bool} {c : Char}
    (hprint : ∀ d ∈ text, isPrintable d = true) (h : c ∈ singleChars indent afterBreak text) :
    isAllowed c = true := by
  induction text generalizing afterBreak with
  | nil =>
    rw [singleChars, List.mem_append, List.mem_singleton] at h
    rcases h with h | rfl
    · exact isAllowed_of_mem_indent h
    · decide
  | cons d text ih =>
    obtain ⟨hd, hrest⟩ := List.forall_mem_cons.1 hprint
    have hself := isAllowed_of_printable hd
    have hfeed : isAllowed '\n' = true := by decide
    have hquote : isAllowed '\'' = true := by decide
    rw [singleChars] at h
    split at h
    · rcases List.mem_append.1 h with h | h
      · split at h <;> simp only [List.mem_cons, List.not_mem_nil, or_false] at h
        · rcases h with rfl | rfl <;> exact hfeed
        · exact h ▸ hself
      · exact ih hrest h
    · rw [List.mem_append, List.mem_append] at h
      rcases h with (h | h) | h
      · exact isAllowed_of_mem_indent h
      · split at h <;> simp only [List.mem_cons, List.not_mem_nil, or_false] at h
        · rcases h with rfl | rfl <;> exact hquote
        · exact h ▸ hself
      · exact ih hrest h

theorem isAllowed_of_mem_blockChars {text : List Char} {indent : Nat} {afterBreak : Bool} {c : Char}
    (hprint : ∀ d ∈ text, isPrintable d = true) (h : c ∈ blockChars indent afterBreak text) :
    isAllowed c = true := by
  induction text generalizing afterBreak with
  | nil => cases h
  | cons d text ih =>
    obtain ⟨hd, hrest⟩ := List.forall_mem_cons.1 hprint
    have hself := isAllowed_of_printable hd
    rw [blockChars] at h
    split at h
    · rcases List.mem_cons.1 h with rfl | h
      · exact hself
      · exact ih hrest h
    · rcases List.mem_append.1 h with h | h
      · exact isAllowed_of_mem_indent h
      · rcases List.mem_cons.1 h with rfl | h
        · exact hself
        · exact ih hrest h

theorem isAllowed_of_mem_blockMarks {text : List Char} {c : Char} (h : c ∈ blockMarks indentStep text) :
    isAllowed c = true := by
  have hmarks : ∀ d ∈ ['2', '-', '+'], isAllowed d = true := List.all_eq_true.1 (by decide)
  refine hmarks c ?_
  have hstep : (toString indentStep).toList = ['2'] := by decide
  rw [blockMarks, hstep, List.mem_append] at h
  rcases h with h | h
  · split at h
    · exact List.mem_append_left ['-', '+'] h
    · cases h
  · refine List.mem_cons_of_mem _ ?_
    split at h
    · exact List.mem_append_left ['+'] h
    · split at h
      · exact List.mem_append_left ['+'] h
      · split at h
        · exact List.mem_append_right ['-'] h
        · split at h
          · exact List.mem_append_right ['-'] h
          · cases h

/-- **Whatever is written of a scalar may stand in a text.** -/
theorem isAllowed_of_mem_scalarLine {indent : Nat} {text : String} {c : Char}
    (h : c ∈ scalarLine indent text) : isAllowed c = true := by
  have hmark : ∀ d ∈ ['\n', '\'', '"', '|'], isAllowed d = true :=
    List.all_eq_true.1 (by decide)
  rcases scalarLine_cases indent text with ⟨-, hallowed, hline⟩ | ⟨-, hallowed, hline⟩ | hline |
    ⟨-, hallowed, hline⟩ <;> rw [hline] at h
  · simp only [plainAllowed, Bool.and_eq_true, Bool.not_eq_true'] at hallowed
    obtain ⟨hprint, -⟩ := needsEscape_eq_false hallowed.1.1.1.1.1.1
    rcases List.mem_append.1 h with h | h
    · exact isAllowed_of_printable (hprint c h)
    · exact hmark c (by simp at h; simp [h])
  · have hescape := (Bool.and_eq_true_iff.1 hallowed).1
    obtain ⟨hprint, -⟩ := needsEscape_eq_false (by simpa using hescape)
    rw [List.cons_append, List.mem_cons, List.mem_append] at h
    rcases h with rfl | h | h
    · decide
    · exact isAllowed_of_mem_singleChars hprint h
    · exact hmark c (by simp at h; simp [h])
  · rw [List.cons_append, List.mem_cons, List.mem_append, List.mem_flatMap] at h
    rcases h with rfl | ⟨d, -, h⟩ | h
    · decide
    · exact isAllowed_of_mem_doubleChar h
    · exact hmark c (by simp at h; rcases h with rfl | rfl <;> simp)
  · have hescape := (Bool.and_eq_true_iff.1 hallowed).1
    obtain ⟨hprint, -⟩ := needsEscape_eq_false (by simpa using hescape)
    rw [List.mem_append, List.mem_append, List.mem_cons, List.mem_cons] at h
    rcases h with ((rfl | h) | rfl | h) | h
    · decide
    · exact isAllowed_of_mem_blockMarks h
    · decide
    · exact isAllowed_of_mem_blockChars hprint h
    · split at h
      · cases h
      · exact hmark c (by simp at h; simp [h])

end CallIndex.Yaml
