import CallIndex.Json.Shape
import CallIndex.Json.Writer

/-!
# Strings and numbers read back

What is written of a string or of a whole number, and then read, gives the same value. A number ends
where no digit, point or exponent follows.

* `Ends`: what may follow a value. `Reads`: a reader reads a text back, whatever ends it.
* `readChars_escaped`: **a string reads back**, whatever characters it has.
* `readNumber_whole`: **a whole number reads back** if it has 64 bits.
-/

namespace CallIndex.Json

/-- What may follow a value: the end, or nothing that goes on with a number. -/
def Ends (rest : List Char) : Prop :=
  ∀ c t, rest = c :: t → isDigit c = false ∧ c ≠ '.' ∧ c ≠ 'e' ∧ c ≠ 'E'

theorem ends_nil : Ends [] := fun _ _ h => nomatch h

/-- A reader reads a text back as a value, whatever ends the value. -/
def Reads {α : Type} (reader : Reader α) (text : List Char) (a : α) : Prop :=
  ∀ rest, Ends rest → reader (text ++ rest) = .ok (a, rest)

/-! ## Strings -/

theorem hexDigit?_hexChar {n : Nat} (h : n < 16) : hexDigit? (hexChar n) = some n := by
  have hall : ∀ i : Fin 16, hexDigit? (hexChar i) = some i.val := by decide
  exact hall ⟨n, h⟩

/-- The three ways to write a character: a letter behind a backslash, its number, or itself. -/
theorem escapeChar_cases (c : Char) :
    (∃ e, e ≠ 'u' ∧ letterEscape? e = some c ∧ escapeChar c = ['\\', e]) ∨
      (c.toNat < 32 ∧
        escapeChar c = ['\\', 'u', '0', '0', hexChar (c.toNat / 16), hexChar (c.toNat % 16)]) ∨
      (c ≠ '"' ∧ c ≠ '\\' ∧ ¬ c < ' ' ∧ escapeChar c = [c]) := by
  unfold escapeChar
  split
  · subst_vars; exact Or.inl ⟨'"', by decide, rfl, rfl⟩
  split
  · subst_vars; exact Or.inl ⟨'\\', by decide, rfl, rfl⟩
  split
  · subst_vars; exact Or.inl ⟨'b', by decide, rfl, rfl⟩
  split
  · subst_vars; exact Or.inl ⟨'f', by decide, rfl, rfl⟩
  split
  · subst_vars; exact Or.inl ⟨'n', by decide, rfl, rfl⟩
  split
  · subst_vars; exact Or.inl ⟨'r', by decide, rfl, rfl⟩
  split
  · subst_vars; exact Or.inl ⟨'t', by decide, rfl, rfl⟩
  split
  · rename_i hc
    exact Or.inr (Or.inl ⟨hc, rfl⟩)
  · rename_i hquote hslash _ _ _ _ _ hc
    exact Or.inr (Or.inr ⟨hquote, hslash, hc, rfl⟩)

/-- The number of a control character reads back. -/
theorem hexUnit?_control {n : Nat} (h : n < 32) :
    hexUnit? '0' '0' (hexChar (n / 16)) (hexChar (n % 16)) = some n := by
  have hhigh := hexDigit?_hexChar (n := n / 16) (by omega)
  have hlow := hexDigit?_hexChar (n := n % 16) (by omega)
  have hzero : hexDigit? '0' = some 0 := by decide
  simp only [hexUnit?, hzero, hhigh, hlow, bind, Option.bind, Option.some.injEq]
  omega

/-- A written character gives itself, and the reader goes on behind it. -/
theorem readChars_escapeChar (c : Char) (rest : List Char) :
    readChars (escapeChar c ++ rest) = consRead c (readChars rest) := by
  rcases escapeChar_cases c with ⟨e, hu, he, hc⟩ | ⟨hn, hc⟩ | ⟨hquote, hslash, hn, hc⟩ <;> rw [hc]
  · show readChars ('\\' :: e :: rest) = _
    rw [readChars.eq_def]
    simp [hu, he]
  · have hunit := hexUnit?_control hn
    have hlow : isLowHalf c.toNat = false := by simp [isLowHalf]; omega
    have hhigh : isHighHalf c.toNat = false := by simp [isHighHalf]; omega
    show readChars ('\\' :: 'u' :: '0' :: '0' :: _ :: _ :: rest) = _
    rw [readChars, hunit]
    simp [hlow, hhigh]
  · show readChars (c :: rest) = _
    rw [readChars.eq_def]
    simp [hslash, hn]

/-- **A string reads back**, up to its closing quote. -/
theorem readChars_escaped (cs rest : List Char) :
    readChars (cs.flatMap escapeChar ++ '"' :: rest) = .ok (cs, rest) := by
  induction cs with
  | nil => rfl
  | cons c cs ih => rw [List.flatMap_cons, List.append_assoc, readChars_escapeChar, ih]; rfl

/-- The reader of a string starts behind the opening quote. -/
theorem readString_written (s : String) (rest : List Char) :
    ∃ text, stringChars s ++ rest = '"' :: text ∧ readString text = .ok (s, rest) := by
  refine ⟨s.toList.flatMap escapeChar ++ '"' :: rest, by simp [stringChars], ?_⟩
  unfold readString
  rw [readChars_escaped]
  simp

/-! ## Whole numbers -/

theorem isDigit_of_isDigit {c : Char} (h : c.isDigit = true) : isDigit c = true := by
  simpa [isDigit, Char.isDigit, Char.le_def] using h

/-- Digits are all read if their number keeps the limit. -/
theorem absorb_all {limit n : Nat} {digits : List Char}
    (h : Nat.ofDigitChars 10 digits n ≤ limit) :
    absorb limit n digits = (Nat.ofDigitChars 10 digits n, []) := by
  induction digits generalizing n with
  | nil => simp [absorb]
  | cons d digits ih =>
    rw [Nat.ofDigitChars_cons] at h ⊢
    have hstep : 10 * n + (d.toNat - '0'.toNat) = n * 10 + digitValue d := by
      unfold digitValue
      omega
    rw [hstep] at h ⊢
    -- a number only grows by its next digit
    have hgrow : Nat.ofDigitChars 10 digits (n * 10 + digitValue d) =
        10 ^ digits.length * (n * 10 + digitValue d) + Nat.ofDigitChars 10 digits 0 :=
      Nat.ofDigitChars_eq_ofDigitChars_zero
    have hpow : 1 ≤ 10 ^ digits.length := Nat.one_le_pow _ _ (by decide)
    have hle : n * 10 + digitValue d ≤ 10 ^ digits.length * (n * 10 + digitValue d) :=
      Nat.le_mul_of_pos_left _ hpow
    rw [absorb, if_neg (by omega), ih h]

theorem isDigit_of_mem_toDigits {n : Nat} {c : Char} (h : c ∈ Nat.toDigits 10 n) :
    isDigit c = true :=
  isDigit_of_isDigit (Nat.isDigit_of_mem_toDigits (by decide) (by decide) h)

/-- Zero apart, no number is written with a zero in front. -/
theorem toDigits_head {n : Nat} (h : n ≠ 0) :
    ∃ c digits, Nat.toDigits 10 n = c :: digits ∧ c ≠ '0' := by
  induction n using Nat.strongRecOn with
  | ind n ih =>
    by_cases hlt : n < 10
    · refine ⟨n.digitChar, [], Nat.toDigits_of_lt_base hlt, ?_⟩
      have hall : ∀ i : Fin 10, i.val ≠ 0 → i.val.digitChar ≠ '0' := by decide
      exact hall ⟨n, hlt⟩ h
    · obtain ⟨c, digits, hdigits, hc⟩ := ih (n / 10) (by omega) (by omega)
      refine ⟨c, digits ++ [(n % 10).digitChar], ?_, hc⟩
      rw [Nat.toDigits_of_base_le (by decide) (by omega), hdigits]
      rfl

/-- What follows the digits of a whole number ends it. -/
theorem readTail_ends (negative : Bool) {n : Nat} (hn : n ≤ maxSignificand) {rest : List Char}
    (hrest : Ends rest) :
    readTail negative (Nat.toDigits 10 n) rest = makeWhole negative n rest := by
  have habsorb : absorb maxSignificand 0 (Nat.toDigits 10 n) = (n, []) := by
    have hvalue : Nat.ofDigitChars 10 (Nat.toDigits 10 n) 0 = n := Nat.ofDigitChars_ten_toDigits
    rw [absorb_all (by rw [hvalue]; exact hn), hvalue]
  unfold readTail
  rw [habsorb]
  cases rest with
  | nil => rfl
  | cons c t =>
    obtain ⟨-, hpoint, he, hE⟩ := hrest c t rfl
    simp [hpoint, he, hE]

theorem Ends.not_digit {rest : List Char} (h : Ends rest) :
    ∀ c t, rest = c :: t → isDigit c = false := fun c t hrest => (h c t hrest).1

/-- Digits are taken up to what ends them. -/
theorem takeWhile_digits {digits rest : List Char} (h : ∀ c ∈ digits, isDigit c = true)
    (hrest : ∀ c t, rest = c :: t → isDigit c = false) :
    (digits ++ rest).takeWhile isDigit = digits ∧ (digits ++ rest).dropWhile isDigit = rest := by
  rw [List.takeWhile_append_of_pos h, List.dropWhile_append_of_pos h]
  cases rest with
  | nil => simp
  | cons c t => simp [hrest c t rfl]

/-- The digits of a number read back, with the sign that stood before them. -/
theorem readNumber_digits (negative : Bool) {n : Nat} (hn : n ≤ maxSignificand) {rest : List Char}
    (hrest : Ends rest) :
    readNumber negative (Nat.toDigits 10 n ++ rest) = makeWhole negative n rest := by
  have htail := readTail_ends negative hn hrest
  by_cases hzero : n = 0
  · subst hzero
    rw [Nat.toDigits_zero] at htail ⊢
    cases rest with
    | nil => exact htail
    | cons c t =>
      have hc := (hrest c t rfl).1
      show (if isDigit c then _ else _) = _
      rw [hc]
      exact htail
  · obtain ⟨c, digits, hdigits, hc⟩ := toDigits_head hzero
    obtain ⟨htake, hdrop⟩ := takeWhile_digits (fun d hd => isDigit_of_mem_toDigits hd) hrest.not_digit
    have hdigit : isDigit c = true := isDigit_of_mem_toDigits (hdigits ▸ List.mem_cons_self)
    rw [hdigits] at htail htake hdrop ⊢
    rw [List.cons_append] at htake hdrop ⊢
    unfold readNumber
    dsimp only
    rw [if_neg hc, if_pos hdigit, htake, hdrop, htail]

theorem numberChars_whole (n : Int) :
    numberChars (.whole n) = (if n < 0 then ['-'] else []) ++ Nat.toDigits 10 n.natAbs := by
  cases n with
  | ofNat n => simp [numberChars, toString, Int.repr]
  | negSucc n => simp [numberChars, toString, Int.repr]

/-- Every range of whole numbers lies in 64 bits with a sign. -/
theorem Width.natAbs_le {width : Width} {n : Int} (h : width.holds n = true) :
    n.natAbs ≤ Nat.pow 2 63 := by
  have hlimit : Nat.pow 2 63 = 9223372036854775808 := rfl
  have hsigned : Int.pow 2 63 = 9223372036854775808 := rfl
  have hunsigned : Int.pow 2 32 = 4294967296 := rfl
  cases width <;>
    simp only [holds, hsigned, hunsigned, Bool.and_eq_true, decide_eq_true_eq] at h <;> omega

theorem toDigits_cons (n : Nat) : ∃ c t, Nat.toDigits 10 n = c :: t ∧ isDigit c = true := by
  obtain ⟨c, t, h⟩ := List.exists_cons_of_ne_nil (Nat.toDigits_ne_nil (n := n) (b := 10))
  exact ⟨c, t, h, isDigit_of_mem_toDigits (h ▸ List.mem_cons_self)⟩

/-- **A whole number reads back**: what follows its sign if it is below zero, and else its digits. -/
theorem readNumber_whole {n : Int} (hn : n.natAbs ≤ Nat.pow 2 63) :
    (∃ t, numberChars (.whole n) = '-' :: t ∧
      ∀ rest, Ends rest → readNumber true (t ++ rest) = .ok (.whole n, rest)) ∨
    ∃ c t, numberChars (.whole n) = c :: t ∧ isDigit c = true ∧
      ∀ rest, Ends rest → readNumber false (c :: (t ++ rest)) = .ok (.whole n, rest) := by
  have hsmall : n.natAbs ≤ maxSignificand := Nat.le_trans hn (by decide)
  rw [numberChars_whole]
  by_cases hneg : n < 0
  · refine Or.inl ⟨Nat.toDigits 10 n.natAbs, by rw [if_pos hneg]; rfl, fun rest hrest => ?_⟩
    -- what follows the sign is not zero
    rw [readNumber_digits true hsmall hrest]
    unfold makeWhole
    rw [if_neg (by simp), if_neg (by omega)]
    have habs : -(n.natAbs : Int) = n := by omega
    rw [habs]
  · obtain ⟨c, t, hdigits, hdigit⟩ := toDigits_cons n.natAbs
    refine Or.inr ⟨c, t, by rw [if_neg hneg, hdigits]; rfl, hdigit, fun rest hrest => ?_⟩
    rw [← List.cons_append, ← hdigits, readNumber_digits false hsmall hrest]
    unfold makeWhole
    have habs : (n.natAbs : Int) = n := by omega
    rw [if_pos (by simp), habs]

/-- A number starts with a sign or a digit. -/
theorem numberChars_cons (n : Int) :
    ∃ c t, numberChars (.whole n) = c :: t ∧ (c = '-' ∨ isDigit c = true) := by
  obtain ⟨c, t, h, hdigit⟩ := toDigits_cons n.natAbs
  rw [numberChars_whole, h]
  by_cases hn : n < 0
  · exact ⟨'-', c :: t, by rw [if_pos hn]; rfl, Or.inl rfl⟩
  · exact ⟨c, t, by rw [if_neg hn]; rfl, Or.inr hdigit⟩

theorem ne_of_isDigit {c d : Char} (hc : isDigit c = true) (hd : isDigit d = false) : c ≠ d := by
  rintro rfl
  simp [hc] at hd

theorem isSpace_of_isDigit {c : Char} (h : isDigit c = true) : isSpace c = false := by
  have hne {d : Char} : isDigit d = false → c ≠ d := ne_of_isDigit h
  simp [isSpace, hne (d := ' ') (by decide), hne (d := '\n') (by decide),
    hne (d := '\t') (by decide), hne (d := '\r') (by decide)]

theorem skipSpace_cons {c : Char} (h : isSpace c = false) (text : List Char) :
    skipSpace (c :: text) = c :: text := by
  simp [skipSpace, h]

end CallIndex.Json
