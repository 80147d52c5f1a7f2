import CallIndex.Proofs.JsonGrammar

/-!
# All texts of JSON

Whatever a JSON text looks like, it has one tree. Blanks may stand between all tokens, a string may be
written with any escapes, and a number with a fraction and an exponent. A tree has a value if it is not
nested too deep, no number in it is too large, and no half of a pair of escapes stands alone.

* `Tree`, `Tree.value?`: a tree, and its value.
* `NumberText`, `StringText`, `Spelled`: the texts of a tree. `JsonText`: whole texts.
* `readChars_spelled`, `readNumber_spelled`: strings and numbers are read.
* `number?_toDigits`: digits have the value that they write.
* `Spelled.readValue`: **every text is read as the value of its tree**, and refused if there is none.
-/

namespace CallIndex.Json

/-! ## Strings -/

/-- What an escape or a character in a string stands for: a character, or half of a pair. -/
inductive Piece where
  | char (c : Char)
  | half (n : Nat)
  deriving DecidableEq, Repr

/-- The texts of a piece: the character itself, an escape with a letter, or one with a number. -/
inductive PieceText : Piece → List Char → Prop where
  | plain {c : Char} (hquote : c ≠ '"') (hslash : c ≠ '\\') (hcontrol : ¬ c < ' ') :
      PieceText (.char c) [c]
  | letter {e c : Char} (h : letterEscape? e = some c) : PieceText (.char c) ['\\', e]
  | number {a b c d : Char} {n : Nat} (h : hexUnit? a b c d = some n) (hhigh : isHighHalf n = false)
      (hlow : isLowHalf n = false) : PieceText (.char (Char.ofNat n)) ['\\', 'u', a, b, c, d]
  | half {a b c d : Char} {n : Nat} (h : hexUnit? a b c d = some n)
      (hhalf : isHighHalf n = true ∨ isLowHalf n = true) : PieceText (.half n) ['\\', 'u', a, b, c, d]

/-- The text of a string between its quotes. -/
inductive StringText : List Piece → List Char → Prop where
  | nil : StringText [] []
  | cons {p : Piece} {ps : List Piece} {text rest : List Char} (h : PieceText p text)
      (hrest : StringText ps rest) : StringText (p :: ps) (text ++ rest)

/-- The characters of a string. A first half needs a second one behind it; no other half may be there. -/
def pieces? : List Piece → Option (List Char)
  | [] => some []
  | .char c :: rest => (pieces? rest).map (c :: ·)
  | .half high :: .half low :: rest =>
    if isHighHalf high && isLowHalf low then (pieces? rest).map (joinHalves high low :: ·) else none
  | .half _ :: _ => none

/-- The name or the text that some pieces make. -/
def text? (ps : List Piece) : Option String := (pieces? ps).map String.ofList

theorem toOption_map {α β : Type} (f : α → β) (r : Except Fault α) :
    (r.map f).toOption = r.toOption.map f := by
  cases r <;> rfl

theorem toOption_bind {α β : Type} (f : α → Except Fault β) (r : Except Fault α) :
    (r >>= f).toOption = r.toOption.bind fun a => (f a).toOption := by
  cases r <;> rfl

theorem toOption_consRead (c : Char) (r : Except Fault (List Char × List Char)) :
    (consRead c r).toOption = r.toOption.map fun (chars, rest) => (c :: chars, rest) := by
  cases r <;> rfl

/-- A half is no number of a character. -/
theorem not_low_of_high {n : Nat} (h : isHighHalf n = true) : isLowHalf n = false := by
  simp only [isHighHalf, Bool.and_eq_true, decide_eq_true_eq] at h
  simp only [isLowHalf, Bool.and_eq_false_iff, decide_eq_false_iff_not]
  omega

/-- **A piece that stands for a character is read as it.** -/
theorem readChars_char {c : Char} {text : List Char} (h : PieceText (.char c) text) (rest : List Char) :
    readChars (text ++ rest) = consRead c (readChars rest) := by
  cases h with
  | plain hquote hslash hcontrol =>
    show readChars (c :: rest) = _
    rw [readChars.eq_def]
    simp [hslash, hcontrol]
  | @letter e _ he =>
    have hu : e ≠ 'u' := by
      rintro rfl
      cases he
    show readChars ('\\' :: e :: rest) = _
    rw [readChars.eq_def]
    simp [hu, he]
  | @number a b d e n hn hhigh hlow =>
    show readChars ('\\' :: 'u' :: a :: b :: d :: e :: rest) = _
    rw [readChars, hn]
    simp [hhigh, hlow]

section Halves

variable {n : Nat} {text : List Char}

/-- A second half that comes first is refused at once. -/
theorem readChars_low (h : PieceText (.half n) text) (hlow : isLowHalf n = true) (rest : List Char) :
    (readChars (text ++ rest)).toOption = none := by
  cases h with
  | @half a b c d n hn hhalf =>
    show (readChars ('\\' :: 'u' :: a :: b :: c :: d :: rest)).toOption = none
    rw [readChars.eq_def]
    simp only [hn, hlow, if_true]
    rfl

/-- **Two halves that fit are one character**, and no others are any. -/
theorem readChars_halves {m : Nat} {text' : List Char} (h : PieceText (.half n) text)
    (h' : PieceText (.half m) text') (rest : List Char) :
    (readChars (text ++ (text' ++ rest))).toOption =
      if isHighHalf n && isLowHalf m then (consRead (joinHalves n m) (readChars rest)).toOption
      else none := by
  by_cases hlow : isLowHalf n = true
  · have hhigh : isHighHalf n = false := by
      by_contra hh
      rw [not_low_of_high (by simpa using hh)] at hlow
      cases hlow
    rw [readChars_low h hlow, hhigh]
    rfl
  cases h with
  | @half a b c d _ hn hhalf =>
    cases h' with
    | @half a' b' c' d' _ hm _ =>
      have hhigh : isHighHalf n = true := hhalf.resolve_right hlow
      show (readChars ('\\' :: 'u' :: a :: b :: c :: d :: '\\' :: 'u' :: a' :: b' :: c' :: d' ::
        rest)).toOption = _
      rw [readChars.eq_def]
      by_cases hm' : isLowHalf m = true
      · simp [hn, hm, hlow, hhigh, hm']
      · simp [hn, hm, hlow, hhigh, hm', faultHere, Except.toOption]

/-- A half in front of a character is refused. -/
theorem readChars_half_char {e : Char} {text' : List Char} (h : PieceText (.half n) text)
    (h' : PieceText (.char e) text') (rest : List Char) :
    (readChars (text ++ (text' ++ rest))).toOption = none := by
  by_cases hlow : isLowHalf n = true
  · exact readChars_low h hlow _
  cases h with
  | @half a b c d _ hn hhalf =>
    have hhigh : isHighHalf n = true := hhalf.resolve_right hlow
    show (readChars ('\\' :: 'u' :: a :: b :: c :: d :: (text' ++ rest))).toOption = none
    rw [readChars.eq_def]
    cases h' with
    | plain hquote hslash hcontrol =>
      simp [hn, hlow, hhigh, hslash, faultNext, Except.toOption]
    | @letter f _ hf =>
      have hu : f ≠ 'u' := by
        rintro rfl
        cases hf
      simp [hn, hlow, hhigh, hu, faultNext, Except.toOption]
    | number hm _ hlow' =>
      simp [hn, hlow, hhigh, hm, hlow', faultHere, Except.toOption]

/-- A half at the end of a string is refused. -/
theorem readChars_half_end (h : PieceText (.half n) text) (rest : List Char) :
    (readChars (text ++ '"' :: rest)).toOption = none := by
  by_cases hlow : isLowHalf n = true
  · exact readChars_low h hlow _
  cases h with
  | @half a b c d _ hn hhalf =>
    have hhigh : isHighHalf n = true := hhalf.resolve_right hlow
    show (readChars ('\\' :: 'u' :: a :: b :: c :: d :: '"' :: rest)).toOption = none
    rw [readChars.eq_def]
    simp [hn, hlow, hhigh, faultNext, Except.toOption]

end Halves

/-- **A string is read as the characters of its pieces**, up to its closing quote, or refused if a half
stands alone. -/
theorem readChars_spelled {ps : List Piece} {text : List Char} (h : StringText ps text)
    (rest : List Char) :
    (readChars (text ++ '"' :: rest)).toOption = (pieces? ps).map fun chars => (chars, rest) := by
  induction ps using pieces?.induct generalizing text with
  | case1 =>
    cases h
    rfl
  | case2 c ps ih =>
    cases h with
    | cons hc hps =>
      rw [List.append_assoc, readChars_char hc, toOption_consRead, ih hps, pieces?]
      cases pieces? ps <;> rfl
  | case3 high low ps hfit ih =>
    cases h with
    | cons hhigh hps =>
      cases hps with
      | cons hlow hps =>
        rw [List.append_assoc, List.append_assoc, readChars_halves hhigh hlow, if_pos hfit,
          toOption_consRead, ih hps, pieces?, if_pos hfit]
        cases pieces? ps <;> rfl
  | case4 high low ps hfit =>
    cases h with
    | cons hhigh hps =>
      cases hps with
      | cons hlow hps =>
        rw [List.append_assoc, List.append_assoc, readChars_halves hhigh hlow, if_neg hfit, pieces?,
          if_neg hfit]
        rfl
  | case5 n ps hnone =>
    cases h with
    | cons hhalf hps =>
      have hvalue : pieces? (.half n :: ps) = none := by
        rw [pieces?]
        exact hnone
      rw [hvalue, List.append_assoc]
      cases hps with
      | nil => exact readChars_half_end hhalf rest
      | @cons p ps _ _ hp hps =>
        cases p with
        | char c =>
          rw [List.append_assoc]
          exact readChars_half_char hhalf hp _
        | half m => exact (hnone m ps rfl).elim

/-- A string after its opening quote. -/
theorem readString_spelled {ps : List Piece} {text : List Char} (h : StringText ps text)
    (rest : List Char) :
    (readString (text ++ '"' :: rest)).toOption = (text? ps).map fun s => (s, rest) := by
  have hread : readString (text ++ '"' :: rest) =
      (readChars (text ++ '"' :: rest)).map fun (chars, rest) => (String.ofList chars, rest) := by
    unfold readString
    cases readChars (text ++ '"' :: rest) <;> rfl
  rw [hread, toOption_map, readChars_spelled h, text?, Option.map_map, Option.map_map]
  rfl

/-! ## Numbers -/

/-- Digits, at least one. -/
def Digits (text : List Char) : Prop := text ≠ [] ∧ ∀ c ∈ text, isDigit c = true

/-- The whole part of a number: a zero, or digits that do not begin with one. -/
def WholeText (text : List Char) : Prop := text = ['0'] ∨ Digits text ∧ text.head? ≠ some '0'

/-- The fraction of a number, if there is one. -/
inductive FractionText : List Char → Prop where
  | none : FractionText []
  | some {digits : List Char} (h : Digits digits) : FractionText ('.' :: digits)

/-- The sign of an exponent, if there is one. -/
def SignText (text : List Char) : Prop := text = [] ∨ text = ['+'] ∨ text = ['-']

/-- The exponent of a number, if there is one. -/
inductive ExponentText : List Char → Prop where
  | none : ExponentText []
  | some {e : Char} {sign digits : List Char} (he : e = 'e' ∨ e = 'E') (hsign : SignText sign)
      (h : Digits digits) : ExponentText (e :: (sign ++ digits))

/-- The text of a number behind its sign. -/
inductive NumberText : List Char → Prop where
  | intro {whole fraction exponent : List Char} (hwhole : WholeText whole)
      (hfraction : FractionText fraction) (hexponent : ExponentText exponent) :
      NumberText (whole ++ (fraction ++ exponent))

/-- The value of a number, unless it is too large. -/
def number? (negative : Bool) (text : List Char) : Option Number :=
  (readNumber negative text).toOption.map Prod.fst

/-- A reader of numbers that takes the whole text, and reads it alike whatever ends it. It refuses a
number for its size and for nothing else. -/
def ReadsWhole (read : List Char → Except Fault (Number × List Char)) (text : List Char) : Prop :=
  (∃ n, ∀ rest, Ends rest → read (text ++ rest) = .ok (n, rest)) ∨
    ∀ rest, Ends rest → ∃ unread, read (text ++ rest) = faultHere .numberTooLarge unread

/-- Readers that agree on a text with its end read it alike. -/
theorem ReadsWhole.of_eq {read read' : List Char → Except Fault (Number × List Char)}
    {text text' : List Char} (h : ReadsWhole read text)
    (heq : ∀ rest, Ends rest → read' (text' ++ rest) = read (text ++ rest)) :
    ReadsWhole read' text' := by
  rcases h with ⟨n, hn⟩ | hlarge
  · exact Or.inl ⟨n, fun rest hrest => (heq rest hrest).trans (hn rest hrest)⟩
  · refine Or.inr fun rest hrest => ?_
    obtain ⟨unread, hunread⟩ := hlarge rest hrest
    exact ⟨unread, (heq rest hrest).trans hunread⟩

theorem makeReal_readsWhole (negative : Bool) (significand : Nat) (exponent : Int) :
    ReadsWhole (makeReal negative significand exponent) [] := by
  unfold ReadsWhole makeReal
  cases Decimal.Binary64.ofScaled significand exponent with
  | none => exact Or.inr fun rest _ => ⟨rest, rfl⟩
  | some magnitude => exact Or.inl ⟨.real negative magnitude, fun rest _ => rfl⟩

/-- The digits of an exponent behind its sign. Those that do not fit are left over. -/
theorem readExponent_digits (negative : Bool) (significand : Nat) (exponent : Int)
    {sign digits left : List Char} {n : Nat} (hsign : SignText sign) (hdigits : Digits digits)
    (habsorb : absorb maxExponent 0 digits = (n, left)) :
    ∃ below : Bool, ∀ rest, Ends rest →
      readExponent negative significand exponent (sign ++ digits ++ rest) =
        if left = [] then
          makeReal negative significand (if below then exponent - n else exponent + n) rest
        else if significand ≠ 0 ∧ !below then faultHere .numberTooLarge (left.tail ++ rest)
        else makeReal negative 0 0 rest := by
  obtain ⟨hne, hall⟩ := hdigits
  obtain ⟨c, more, rfl⟩ := List.exists_cons_of_ne_nil hne
  have hc : isDigit c = true := hall c List.mem_cons_self
  have hplus : c ≠ '+' := ne_of_isDigit hc (by decide)
  have hminus : c ≠ '-' := ne_of_isDigit hc (by decide)
  have htaken : ∀ rest, Ends rest → (c :: (more ++ rest)).takeWhile isDigit = c :: more ∧
      (c :: (more ++ rest)).dropWhile isDigit = rest :=
    fun rest hrest => takeWhile_digits hall hrest.not_digit
  rcases hsign with rfl | rfl | rfl
  · refine ⟨false, fun rest hrest => ?_⟩
    obtain ⟨htake, hdrop⟩ := htaken rest hrest
    show readExponent negative significand exponent (c :: (more ++ rest)) = _
    cases left <;> simp [readExponent, hplus, hminus, hc, htake, hdrop, habsorb]
  · refine ⟨false, fun rest hrest => ?_⟩
    obtain ⟨htake, hdrop⟩ := htaken rest hrest
    show readExponent negative significand exponent ('+' :: c :: (more ++ rest)) = _
    cases left <;> simp [readExponent, hc, htake, hdrop, habsorb]
  · refine ⟨true, fun rest hrest => ?_⟩
    obtain ⟨htake, hdrop⟩ := htaken rest hrest
    show readExponent negative significand exponent ('-' :: c :: (more ++ rest)) = _
    cases left <;> simp [readExponent, hc, htake, hdrop, habsorb]

theorem readExponent_readsWhole (negative : Bool) (significand : Nat) (exponent : Int)
    {sign digits : List Char} (hsign : SignText sign) (hdigits : Digits digits) :
    ReadsWhole (readExponent negative significand exponent) (sign ++ digits) := by
  obtain ⟨n, left, habsorb⟩ : ∃ n left, absorb maxExponent 0 digits = (n, left) := ⟨_, _, rfl⟩
  obtain ⟨below, hread⟩ := readExponent_digits negative significand exponent hsign hdigits habsorb
  by_cases hleft : left = []
  · simp only [if_pos hleft] at hread
    exact (makeReal_readsWhole negative significand _).of_eq hread
  simp only [if_neg hleft] at hread
  by_cases hlarge : significand ≠ 0 ∧ (!below) = true
  · simp only [if_pos hlarge] at hread
    exact Or.inr fun rest hrest => ⟨left.tail ++ rest, hread rest hrest⟩
  · simp only [if_neg hlarge] at hread
    exact (makeReal_readsWhole negative 0 0).of_eq hread

/-- What may follow a fraction or the whole part: an exponent, or the end of the number. -/
theorem exponent_readsWhole {exponent : List Char} (h : ExponentText exponent) (negative : Bool)
    (significand : Nat) (power : Int) {read : List Char → Except Fault (Number × List Char)}
    {other : List Char → Except Fault (Number × List Char)}
    (hmark : ∀ e rest, e = 'e' ∨ e = 'E' →
      read (e :: rest) = readExponent negative significand power rest)
    (hother : ∀ rest, Ends rest → read rest = other rest) (hend : ReadsWhole other []) :
    ReadsWhole read exponent := by
  cases h with
  | none => exact hend.of_eq hother
  | @some e sign digits he hsign hdigits =>
    refine (readExponent_readsWhole negative significand power hsign hdigits).of_eq fun rest _ => ?_
    exact hmark e _ he

/-- The digits behind a point, and what follows them. -/
theorem readFraction_readsWhole (negative : Bool) (significand : Nat) (power : Int)
    {digits exponent : List Char} (hdigits : Digits digits) (hexponent : ExponentText exponent) :
    ReadsWhole (readFraction negative significand power) (digits ++ exponent) := by
  obtain ⟨n, left, habsorb⟩ : ∃ n left, absorb maxSignificand significand digits = (n, left) :=
    ⟨_, _, rfl⟩
  have hempty : digits.isEmpty = false := by
    rw [List.isEmpty_eq_false_iff]
    exact hdigits.1
  have hmark : ∀ e rest, e = 'e' ∨ e = 'E' →
      readFraction negative significand power (digits ++ e :: rest) =
        readExponent negative n (power - (digits.length - left.length : Nat)) rest := by
    intro e rest he
    have hends : ∀ c t, e :: rest = c :: t → isDigit c = false := by
      rintro c t ⟨⟩
      rcases he with rfl | rfl <;> rfl
    obtain ⟨htake, hdrop⟩ := takeWhile_digits hdigits.2 hends
    unfold readFraction
    rcases he with rfl | rfl <;> simp [htake, hdrop, hempty, habsorb]
  have hother : ∀ rest, Ends rest → readFraction negative significand power (digits ++ rest) =
      makeReal negative n (power - (digits.length - left.length : Nat)) rest := by
    intro rest hrest
    obtain ⟨htake, hdrop⟩ := takeWhile_digits hdigits.2 hrest.not_digit
    unfold readFraction
    simp only [htake, hdrop, hempty, habsorb, Bool.false_eq_true, if_false]
    cases rest with
    | nil => rfl
    | cons c t =>
      obtain ⟨-, -, he, hE⟩ := hrest c t rfl
      simp [he, hE]
  refine (exponent_readsWhole hexponent negative n _ hmark hother
    (makeReal_readsWhole negative n _)).of_eq fun rest _ => ?_
  rw [List.append_assoc]

/-- What ends a number after its whole part. -/
theorem makeEnd_readsWhole (negative : Bool) (n : Nat) (left : List Char) :
    ReadsWhole (fun rest => if left.isEmpty then makeWhole negative n rest
      else makeReal negative n left.length rest) [] := by
  by_cases hleft : left.isEmpty = true
  · simp only [hleft, if_true]
    by_cases hsign : negative = true
    · by_cases hzero : n = 0 ∨ Nat.pow 2 63 < n
      · refine (makeReal_readsWhole true n 0).of_eq fun rest _ => ?_
        simp [makeWhole, hsign, hzero]
      · refine Or.inl ⟨.whole (-n), fun rest _ => ?_⟩
        simp [makeWhole, hsign, hzero]
    · refine Or.inl ⟨.whole n, fun rest _ => ?_⟩
      simp [makeWhole, hsign]
  · simp only [hleft]
    exact makeReal_readsWhole negative n left.length

/-- What follows the whole part. -/
theorem readTail_readsWhole (negative : Bool) (digits : List Char) {fraction exponent : List Char}
    (hfraction : FractionText fraction) (hexponent : ExponentText exponent) :
    ReadsWhole (readTail negative digits) (fraction ++ exponent) := by
  obtain ⟨n, left, habsorb⟩ : ∃ n left, absorb maxSignificand 0 digits = (n, left) := ⟨_, _, rfl⟩
  cases hfraction with
  | none =>
    refine exponent_readsWhole hexponent negative n left.length ?_ ?_
      (makeEnd_readsWhole negative n left)
    · intro e rest he
      unfold readTail
      rcases he with rfl | rfl <;> simp [habsorb]
    · intro rest hrest
      unfold readTail
      rw [habsorb]
      cases rest with
      | nil => rfl
      | cons c t =>
        obtain ⟨-, hpoint, he, hE⟩ := hrest c t rfl
        simp [hpoint, he, hE]
  | @some fraction h =>
    refine (readFraction_readsWhole negative n left.length h hexponent).of_eq fun rest _ => ?_
    show readTail negative digits ('.' :: (fraction ++ exponent ++ rest)) = _
    unfold readTail
    simp [habsorb]

/-- What follows the whole part of a number does not go on with its digits. -/
theorem tail_not_digit {fraction exponent rest : List Char} (hfraction : FractionText fraction)
    (hexponent : ExponentText exponent) (hrest : Ends rest) :
    ∀ c t, fraction ++ (exponent ++ rest) = c :: t → isDigit c = false := by
  intro c t heq
  cases hfraction with
  | some =>
    cases heq
    rfl
  | none =>
    cases hexponent with
    | none => exact (hrest c t heq).1
    | some he =>
      cases heq
      rcases he with rfl | rfl <;> rfl

/-- **Every text of a number is read to its end**, whatever ends it, unless the number is too large. -/
theorem readNumber_readsWhole (negative : Bool) {text : List Char} (h : NumberText text) :
    ReadsWhole (readNumber negative) text := by
  cases h with
  | @intro whole fraction exponent hwhole hfraction hexponent =>
    refine (readTail_readsWhole negative whole hfraction hexponent).of_eq fun rest hrest => ?_
    have hend := tail_not_digit hfraction hexponent hrest
    simp only [List.append_assoc]
    generalize fraction ++ (exponent ++ rest) = tail at hend
    rcases hwhole with rfl | ⟨hdigits, hhead⟩
    · unfold readNumber
      cases tail with
      | nil => rfl
      | cons c t => simp [hend c t rfl]
    · obtain ⟨htake, hdrop⟩ := takeWhile_digits hdigits.2 hend
      obtain ⟨hne, hall⟩ := hdigits
      obtain ⟨c, more, rfl⟩ := List.exists_cons_of_ne_nil hne
      have hc : isDigit c = true := hall c List.mem_cons_self
      have hzero : c ≠ '0' := by
        rintro rfl
        exact hhead rfl
      rw [List.cons_append] at htake hdrop ⊢
      unfold readNumber
      simp only [if_neg hzero, hc, if_true, htake, hdrop]

/-- A number of a text, and what is left. -/
theorem readNumber_spelled (negative : Bool) {text rest : List Char} (h : NumberText text)
    (hrest : Ends rest) :
    (readNumber negative (text ++ rest)).toOption = (number? negative text).map (·, rest) := by
  unfold number?
  rcases readNumber_readsWhole negative h with ⟨n, hn⟩ | hlarge
  · have halone := hn [] ends_nil
    rw [List.append_nil] at halone
    rw [hn rest hrest, halone]
    rfl
  · obtain ⟨unread, hunread⟩ := hlarge rest hrest
    obtain ⟨unread', halone⟩ := hlarge [] ends_nil
    rw [List.append_nil] at halone
    rw [hunread, halone]
    rfl

/-- The digits of a number are a text of it. -/
theorem numberText_toDigits (n : Nat) : NumberText (Nat.toDigits 10 n) := by
  have hwhole : WholeText (Nat.toDigits 10 n) := by
    by_cases hzero : n = 0
    · subst hzero
      exact Or.inl (Nat.toDigits_zero 10)
    · obtain ⟨c, digits, hdigits, hc⟩ := toDigits_head hzero
      refine Or.inr ⟨⟨Nat.toDigits_ne_nil, fun c hc => isDigit_of_mem_toDigits hc⟩, ?_⟩
      rw [hdigits, List.head?_cons]
      exact fun he => hc (Option.some.inj he)
  have htext := NumberText.intro hwhole .none .none
  rwa [List.append_nil, List.append_nil] at htext

/-- **The value of digits is the number that they write.** -/
theorem number?_toDigits {n : Nat} (h : n ≤ maxSignificand) :
    number? false (Nat.toDigits 10 n) = some (.whole n) := by
  have hread := readNumber_digits false h ends_nil
  rw [List.append_nil] at hread
  unfold number?
  rw [hread]
  rfl

/-! ## Trees -/

/-- What a text says, with its numbers and strings as they are spelled. -/
inductive Tree where
  | null
  | bool (b : Bool)
  | number (negative : Bool) (text : List Char)
  | string (pieces : List Piece)
  | array (items : List Tree)
  | object (members : List (List Piece × Tree))

/-- The name and the value of a member. -/
def member? {β : Type} (value : Tree → Option β) (m : List Piece × Tree) : Option (String × β) :=
  (text? m.1).bind fun key => (value m.2).map (key, ·)

/-- The value of a tree with at most `depth` lists and objects around its inner parts, if all its numbers
and strings have one. -/
def Tree.value? : Nat → Tree → Option Value
  | _, .null => some .null
  | _, .bool b => some (.bool b)
  | _, .number negative text => (number? negative text).map .number
  | _, .string pieces => (text? pieces).map .string
  | 0, .array _ => none
  | 0, .object _ => none
  | depth + 1, .array items => (items.mapM (value? depth)).map .array
  | depth + 1, .object members => (members.mapM (member? (value? depth))).map .object

mutual

/-- A text of a tree, from its first character to its last. -/
inductive Spelled : Tree → List Char → Prop where
  | null : Spelled .null ['n', 'u', 'l', 'l']
  | bool (b : Bool) : Spelled (.bool b)
      (if b then ['t', 'r', 'u', 'e'] else ['f', 'a', 'l', 's', 'e'])
  | number {text : List Char} (h : NumberText text) : Spelled (.number false text) text
  | negative {text : List Char} (h : NumberText text) : Spelled (.number true text) ('-' :: text)
  | string {pieces : List Piece} {text : List Char} (h : StringText pieces text) :
      Spelled (.string pieces) ('"' :: (text ++ ['"']))
  | array {items : List Tree} {text : List Char} (h : Separated SpelledItem true items text) :
      Spelled (.array items) ('[' :: (text ++ [']']))
  | object {members : List (List Piece × Tree)} {text : List Char}
      (h : Separated SpelledMember true members text) :
      Spelled (.object members) ('{' :: (text ++ ['}']))

/-- A text of a tree with blanks behind it. -/
inductive SpelledItem : Tree → List Char → Prop where
  | intro {tree : Tree} {text blank : List Char} (h : Spelled tree text) (hb : Blank blank) :
      SpelledItem tree (text ++ blank)

/-- A text of a member: its name, a colon, and its value, with blanks between them. -/
inductive SpelledMember : List Piece × Tree → List Char → Prop where
  | intro {key : List Piece} {tree : Tree} {name before after text : List Char}
      (hkey : StringText key name) (hbefore : Blank before) (hafter : Blank after)
      (h : SpelledItem tree text) :
      SpelledMember (key, tree) ('"' :: (name ++ '"' :: (before ++ ':' :: (after ++ text))))

end

/-- A whole JSON text: a tree with blanks around it. -/
inductive JsonText : Tree → List Char → Prop where
  | intro {tree : Tree} {blank text : List Char} (hb : Blank blank) (h : SpelledItem tree text) :
      JsonText tree (blank ++ text)

theorem Spelled.item {tree : Tree} {text : List Char} (h : Spelled tree text) :
    SpelledItem tree text := by
  have hitem := SpelledItem.intro h Value.blank_nil
  rwa [List.append_nil] at hitem

/-- The pieces of a string without escapes. -/
def plain (s : String) : List Piece := s.toList.map .char

/-- A character that needs no escape. -/
def needsNone (c : Char) : Bool := c ≠ '"' && c ≠ '\\' && !decide (c < ' ')

/-- A string without quotes, backslashes and controls is a text of its pieces. -/
theorem stringText_plain {s : String} (h : s.toList.all needsNone = true) :
    StringText (plain s) s.toList := by
  unfold plain
  generalize s.toList = chars at h
  induction chars with
  | nil => exact .nil
  | cons c chars ih =>
    obtain ⟨hc, hrest⟩ := Bool.and_eq_true_iff.1 h
    obtain ⟨⟨hquote, hslash⟩, hcontrol⟩ : (c ≠ '"' ∧ c ≠ '\\') ∧ ¬ c < ' ' := by
      simpa [needsNone] using hc
    exact .cons (.plain hquote hslash hcontrol) (ih hrest)

/-- Such a string as an item, with nothing behind it. -/
theorem SpelledItem.plain (s : String) (h : s.toList.all needsNone = true) :
    SpelledItem (.string (plain s)) ('"' :: (s.toList ++ ['"'])) :=
  (Spelled.string (stringText_plain h)).item

/-- A member with such a name, with nothing around its colon. -/
theorem SpelledMember.plain (s : String) (h : s.toList.all needsNone = true) {tree : Tree}
    {text : List Char} (htext : SpelledItem tree text) :
    SpelledMember (plain s, tree) ('"' :: (s.toList ++ '"' :: ':' :: text)) :=
  .intro (stringText_plain h) Value.blank_nil Value.blank_nil htext

/-! ## Reading trees -/

/-- A reader reads a text up to its end, and makes of it what is given, or refuses it. -/
def Yields {α : Type} (reader : Reader α) (text : List Char) (a : Option α) : Prop :=
  ∀ rest, Ends rest → (reader (text ++ rest)).toOption = a.map (·, rest)

theorem NumberText.starts {text : List Char} (h : NumberText text) :
    ∃ c t, text = c :: t ∧ isDigit c = true := by
  cases h with
  | intro hwhole =>
    rcases hwhole with rfl | ⟨⟨hne, hall⟩, -⟩
    · exact ⟨'0', _, rfl, by decide⟩
    · obtain ⟨c, more, rfl⟩ := List.exists_cons_of_ne_nil hne
      exact ⟨c, _, rfl, hall c List.mem_cons_self⟩

/-- A text starts with no blank and no closing bracket. Only lists and objects start with an opening
one. -/
theorem Spelled.starts {tree : Tree} {text : List Char} (h : Spelled tree text) :
    ∃ c t, text = c :: t ∧ isSpace c = false ∧ c ≠ ']' ∧
      ((∀ items, tree ≠ .array items) → c ≠ '[') ∧ ((∀ members, tree ≠ .object members) → c ≠ '{') := by
  cases h with
  | null => exact ⟨'n', _, rfl, by decide, by decide, fun _ => by decide, fun _ => by decide⟩
  | bool b =>
    cases b <;> exact ⟨_, _, rfl, by decide, by decide, fun _ => by decide, fun _ => by decide⟩
  | number h =>
    obtain ⟨c, t, rfl, hdigit⟩ := h.starts
    have hne {d : Char} : isDigit d = false → c ≠ d := ne_of_isDigit hdigit
    exact ⟨c, t, rfl, isSpace_of_isDigit hdigit, hne (by decide), fun _ => hne (by decide),
      fun _ => hne (by decide)⟩
  | negative => exact ⟨'-', _, rfl, by decide, by decide, fun _ => by decide, fun _ => by decide⟩
  | string => exact ⟨'"', _, rfl, by decide, by decide, fun _ => by decide, fun _ => by decide⟩
  | @array items =>
    exact ⟨'[', _, rfl, by decide, by decide, fun h => (h items rfl).elim, fun _ => by decide⟩
  | @object members =>
    exact ⟨'{', _, rfl, by decide, by decide, fun _ => by decide, fun h => (h members rfl).elim⟩

theorem SpelledItem.length_pos {tree : Tree} {text : List Char} (h : SpelledItem tree text) :
    0 < text.length := by
  cases h with
  | intro h =>
    obtain ⟨c, t, rfl, -⟩ := h.starts
    exact Nat.succ_pos _

theorem SpelledMember.length_pos {m : List Piece × Tree} {text : List Char}
    (h : SpelledMember m text) : 0 < text.length := by
  cases h
  exact Nat.succ_pos _

/-- Blanks end a value if what is behind them does. -/
theorem ends_blank {blank rest : List Char} (hb : Blank blank) (hrest : Ends rest) :
    Ends (blank ++ rest) := by
  cases blank with
  | nil => exact hrest
  | cons c t => exact ends_cons (by simp [hb c List.mem_cons_self]) _

/-- What is neither a list nor an object. -/
theorem readScalar_yields {tree : Tree} {text : List Char} (h : Spelled tree text)
    (hitems : ∀ items, tree ≠ .array items) (hmembers : ∀ members, tree ≠ .object members) (d : Nat) :
    Yields readScalar text (tree.value? d) := by
  intro rest hrest
  cases h with
  | null => cases d <;> rfl
  | bool b => cases d <;> cases b <;> rfl
  | @number text h =>
    obtain ⟨c, t, rfl, hdigit⟩ := h.starts
    have hread := readNumber_spelled false h hrest
    have hne {d : Char} : isDigit d = false → c ≠ d := ne_of_isDigit hdigit
    have hscalar : readScalar (c :: t ++ rest) =
        (readNumber false (c :: t ++ rest)).map fun p => (.number p.1, p.2) := by
      rw [List.cons_append]
      unfold readScalar
      have hn : c ≠ 'n' := hne (by decide)
      have ht : c ≠ 't' := hne (by decide)
      have hf : c ≠ 'f' := hne (by decide)
      have hminus : c ≠ '-' := hne (by decide)
      simp [hdigit, hn, ht, hf, hminus]
    rw [hscalar, toOption_map, hread, Tree.value?, Option.map_map, Option.map_map]
    rfl
  | @negative text h =>
    have hread := readNumber_spelled true h hrest
    have hscalar : readScalar ('-' :: text ++ rest) =
        (readNumber true (text ++ rest)).map fun p => (.number p.1, p.2) := rfl
    rw [hscalar, toOption_map, hread, Tree.value?, Option.map_map, Option.map_map]
    rfl
  | @string pieces text h =>
    have hread := readString_spelled h rest
    have hscalar : readScalar ('"' :: (text ++ ['"']) ++ rest) =
        (readString (text ++ '"' :: rest)).map fun p => (.string p.1, p.2) := by
      rw [List.cons_append, List.append_assoc]
      rfl
    rw [hscalar, toOption_map, hread, Tree.value?, Option.map_map, Option.map_map]
    rfl
  | array => exact (hitems _ rfl).elim
  | object => exact (hmembers _ rfl).elim

theorem nextItem_blank (first : Bool) {blank : List Char} (hb : Blank blank) (text : List Char) :
    nextItem first (blank ++ text) = nextItem first text := by
  unfold nextItem
  rw [skipSpace_blank hb]

theorem nextKey_blank (first : Bool) {blank : List Char} (hb : Blank blank) (text : List Char) :
    nextKey first (blank ++ text) = nextKey first text := by
  unfold nextKey
  rw [skipSpace_blank hb]

/-- **The items of a list**, one after the other. Blanks may be left before the first one. -/
theorem readItems_spelled {β : Type} {item : Reader β} {value : Tree → Option β}
    (hitem : ∀ tree text, Spelled tree text → Yields item text (value tree)) {items : List Tree}
    {first : Bool} {text : List Char} (htext : Separated SpelledItem first items text) (fuel : Nat)
    (hfuel : text.length < fuel) {before : List Char} (hbefore : Blank before) (rest : List Char) :
    ∃ blank, Blank blank ∧ (readItems item fuel first (before ++ (text ++ ']' :: rest))).toOption =
      (items.mapM value).map (·, blank ++ ']' :: rest) := by
  induction htext generalizing fuel before with
  | @nil first blank hb =>
    obtain ⟨fuel, rfl⟩ : ∃ k, fuel = k + 1 := ⟨fuel - 1, by omega⟩
    have hall : Blank (before ++ blank) := fun c hc =>
      (List.mem_append.1 hc).elim (hbefore c) (hb c)
    refine ⟨before ++ blank, hall, ?_⟩
    rw [← List.append_assoc, readItems, nextItem_close first hall]
    rfl
  | @cons first blank text others tree items hb h hothers ih =>
    obtain ⟨fuel, rfl⟩ : ∃ k, fuel = k + 1 := ⟨fuel - 1, by omega⟩
    have hlength : others.length < fuel := by
      have hpos := h.length_pos
      simp only [List.length_append] at hfuel
      omega
    cases h with
    | @intro _ text behind h hbehind =>
      obtain ⟨blank', hb', hread⟩ := ih fuel hlength hbehind
      obtain ⟨c, t, hc, hspace, hclose, -⟩ := h.starts
      have hnext : nextItem first (before ++ (comma first ++ (blank ++ (text ++ (behind ++ (others ++
          ']' :: rest)))))) = .ok (some (text ++ (behind ++ (others ++ ']' :: rest)))) := by
        rw [nextItem_blank first hbefore, hc]
        exact nextItem_cons first hb hspace hclose _
      have hvalue := hitem tree text h (behind ++ (others ++ ']' :: rest))
        (ends_blank hbehind (ends_separated hothers (Or.inl rfl) rest))
      refine ⟨blank', hb', ?_⟩
      simp only [List.append_assoc]
      rw [readItems, hnext, List.mapM_cons]
      show (item (text ++ (behind ++ (others ++ ']' :: rest))) >>= fun p =>
        readItems item fuel false p.2 >>= fun q => .ok (p.1 :: q.1, q.2)).toOption = _
      rw [toOption_bind, hvalue]
      cases value tree with
      | none => rfl
      | some v =>
        show (readItems item fuel false (behind ++ (others ++ ']' :: rest)) >>= fun q =>
          .ok (v :: q.1, q.2)).toOption = _
        rw [toOption_bind, hread]
        cases items.mapM value <;> rfl

/-- **A list**, after its opening bracket. -/
theorem readArray_spelled {β : Type} {item : Reader β} {value : Tree → Option β}
    (hitem : ∀ tree text, Spelled tree text → Yields item text (value tree)) {items : List Tree}
    {text : List Char} (htext : Separated SpelledItem true items text) (rest : List Char) :
    (readArray item (text ++ ']' :: rest)).toOption = (items.mapM value).map (·, rest) := by
  obtain ⟨blank, hb, hread⟩ := readItems_spelled hitem htext ((text ++ ']' :: rest).length + 1)
    (by rw [List.length_append]; omega) Value.blank_nil rest
  rw [List.nil_append] at hread
  unfold readArray
  rw [toOption_bind, hread]
  cases items.mapM value with
  | none => rfl
  | some vs =>
    simp only [Option.map_some, Option.bind_some, toOption_bind, endArray_close hb]
    rfl

/-- **The members of an object**, one after the other. -/
theorem readMembers_spelled {β : Type} {item : Reader β} {value : Tree → Option β}
    (hskip : Skips item) (hitem : ∀ tree text, Spelled tree text → Yields item text (value tree))
    {members : List (List Piece × Tree)} {first : Bool} {text : List Char}
    (htext : Separated SpelledMember first members text) (fuel : Nat) (hfuel : text.length < fuel)
    {before : List Char} (hbefore : Blank before) (rest : List Char) :
    ∃ blank, Blank blank ∧
      (readMembers item fuel first (before ++ (text ++ '}' :: rest))).toOption =
        (members.mapM (member? value)).map (·, blank ++ '}' :: rest) := by
  induction htext generalizing fuel before with
  | @nil first blank hb =>
    obtain ⟨fuel, rfl⟩ : ∃ k, fuel = k + 1 := ⟨fuel - 1, by omega⟩
    have hall : Blank (before ++ blank) := fun c hc =>
      (List.mem_append.1 hc).elim (hbefore c) (hb c)
    refine ⟨before ++ blank, hall, ?_⟩
    rw [← List.append_assoc, readMembers, nextKey_close first hall]
    rfl
  | @cons first blank text others m members hb h hothers ih =>
    obtain ⟨fuel, rfl⟩ : ∃ k, fuel = k + 1 := ⟨fuel - 1, by omega⟩
    have hlength : others.length < fuel := by
      have hpos := h.length_pos
      simp only [List.length_append] at hfuel
      omega
    cases h with
    | @intro key tree name space after _ hkey hspace hafter h =>
      cases h with
      | @intro _ text behind h hbehind =>
        obtain ⟨blank', hb', hread⟩ := ih fuel hlength hbehind
        have hvalue := hitem tree text h (behind ++ (others ++ '}' :: rest))
          (ends_blank hbehind (ends_separated hothers (Or.inr rfl) rest))
        have hname := readString_spelled hkey
          (space ++ ':' :: (after ++ (text ++ (behind ++ (others ++ '}' :: rest)))))
        have hcolon : ∀ tail, readColon (space ++ ':' :: tail) = .ok tail := by
          intro tail
          unfold readColon
          rw [skipSpace_blank hspace, skipSpace_cons (by decide)]
          rfl
        refine ⟨blank', hb', ?_⟩
        simp only [List.append_assoc, List.cons_append]
        rw [readMembers, nextKey_blank first hbefore, nextKey_cons first hb, List.mapM_cons, member?,
          toOption_bind, toOption_map, hname]
        cases text? key with
        | none => rfl
        | some k =>
          show (readColon (space ++ ':' :: (after ++ (text ++ (behind ++ (others ++ '}' :: rest))))) >>=
            fun t => item t >>= fun p => readMembers item fuel false p.2 >>= fun q =>
              .ok ((k, p.1) :: q.1, q.2)).toOption = _
          rw [hcolon]
          show (item (after ++ (text ++ (behind ++ (others ++ '}' :: rest)))) >>= fun p =>
            readMembers item fuel false p.2 >>= fun q => .ok ((k, p.1) :: q.1, q.2)).toOption = _
          rw [hskip.blank hafter, toOption_bind, hvalue]
          cases value tree with
          | none => rfl
          | some v =>
            show (readMembers item fuel false (behind ++ (others ++ '}' :: rest)) >>= fun q =>
              .ok ((k, v) :: q.1, q.2)).toOption = _
            rw [toOption_bind, hread]
            cases members.mapM (member? value) <;> rfl

/-- **An object**, after its opening brace. -/
theorem readObject_spelled {β : Type} {item : Reader β} {value : Tree → Option β}
    (hskip : Skips item) (hitem : ∀ tree text, Spelled tree text → Yields item text (value tree))
    {members : List (List Piece × Tree)} {text : List Char}
    (htext : Separated SpelledMember true members text) (rest : List Char) :
    (readObject item (text ++ '}' :: rest)).toOption =
      (members.mapM (member? value)).map (·, rest) := by
  obtain ⟨blank, hb, hread⟩ := readMembers_spelled hskip hitem htext
    ((text ++ '}' :: rest).length + 1) (by rw [List.length_append]; omega) Value.blank_nil rest
  rw [List.nil_append] at hread
  unfold readObject
  rw [toOption_bind, hread]
  cases members.mapM (member? value) with
  | none => rfl
  | some vs =>
    simp only [Option.map_some, Option.bind_some, toOption_bind, endObject_close hb]
    rfl

/-- A text of a tree that is neither a list nor an object. -/
theorem readValue_scalar {tree : Tree} {text : List Char} (h : Spelled tree text)
    (hitems : ∀ items, tree ≠ .array items) (hmembers : ∀ members, tree ≠ .object members) (d : Nat) :
    Yields (readValue d) text (tree.value? d) := by
  intro rest hrest
  have hscalar := readScalar_yields h hitems hmembers d rest hrest
  obtain ⟨c, t, rfl, hspace, -, hbracket, hbrace⟩ := h.starts
  rw [List.cons_append] at hscalar ⊢
  rw [readValue, skipSpace_cons hspace]
  simp only [if_neg (hbracket hitems), if_neg (hbrace hmembers)]
  exact hscalar

/-- **Every text of a tree is read as its value**, and it is refused if it has none: if it is nested too
deep, if a number in it is too large, or if half of a pair stands alone in a string. -/
theorem Spelled.readValue {d : Nat} {tree : Tree} {text : List Char} (h : Spelled tree text) :
    Yields (readValue d) text (tree.value? d) := by
  have hspelled := h
  induction d generalizing tree text with
  | zero =>
    cases h with
    | array | object =>
      intro rest _
      rw [List.cons_append, Json.readValue, skipSpace_cons (by decide)]
      rfl
    | null | bool | number | negative | string =>
      exact readValue_scalar hspelled (by simp) (by simp) 0
  | succ d ih =>
    cases h with
    | @array items text h =>
      intro rest _
      rw [List.cons_append, List.append_assoc, Json.readValue, skipSpace_cons (by decide)]
      simp only [if_true]
      rw [List.singleton_append, toOption_map, readArray_spelled (fun _ _ h => ih h h) h, Tree.value?,
        Option.map_map, Option.map_map]
      rfl
    | @object members text h =>
      intro rest _
      rw [List.cons_append, List.append_assoc, Json.readValue, skipSpace_cons (by decide)]
      simp only [if_neg (show ¬ '{' = '[' by decide), if_true]
      rw [List.singleton_append, toOption_map,
        readObject_spelled (readValue_skips d) (fun _ _ h => ih h h) h, Tree.value?, Option.map_map,
        Option.map_map]
      rfl
    | null | bool | number | negative | string =>
      exact readValue_scalar hspelled (by simp) (by simp) (d + 1)

/-- **A whole text is read as the value of its tree.** Only blanks are left. -/
theorem JsonText.readValue {tree : Tree} {text : List Char} (h : JsonText tree text) (d : Nat) :
    ∃ blank, Blank blank ∧
      (Json.readValue d text).toOption = (tree.value? d).map (·, blank) := by
  cases h with
  | intro hb h =>
    cases h with
    | @intro _ text blank h hblank =>
      have hends : Ends blank := by
        have := ends_blank hblank ends_nil
        rwa [List.append_nil] at this
      refine ⟨blank, hblank, ?_⟩
      rw [(readValue_skips d).blank hb]
      exact h.readValue blank hends

theorem endDocument_blank {blank : List Char} (hb : Blank blank) : endDocument blank = .ok () := by
  have hskip := skipSpace_blank hb []
  rw [List.append_nil] at hskip
  unfold endDocument
  rw [hskip]
  rfl

end CallIndex.Json
