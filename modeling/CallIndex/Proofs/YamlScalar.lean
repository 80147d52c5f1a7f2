import CallIndex.Yaml.Writer
import Mathlib.Data.List.Basic

/-!
# Scalars of one line read back

A text without line feeds is written without quotes, in single quotes or in double quotes, and the reader
of each form gives the text back. Separators may stand in single quotes, where they end lines.

* `breakText_of_printable`: a break that is written as it is stands for itself.
* `readPlain_text`: **a plain scalar reads back**, up to what ends it.
* `readSingle_written`: **a scalar in single quotes reads back**. What follows a separator is indented.
* `readDouble_written`: **a scalar in double quotes reads back**, whatever characters it has.
-/

namespace CallIndex.Yaml

/-! ## Characters -/

theorem isBreak_iff {c : Char} : isBreak c = true ↔ c.toNat = 0x0D ∨ c.toNat = 0x0A ∨
    c.toNat = 0x85 ∨ c.toNat = 0x2028 ∨ c.toNat = 0x2029 := by
  simp [isBreak, or_assoc]

/-- What is written as it is may stand in a text. -/
theorem isAllowed_of_printable {c : Char} (h : isPrintable c = true) : isAllowed c = true := by
  simp only [isPrintable, isAllowed, Bool.or_eq_true, Bool.and_eq_true, beq_iff_eq, bne_iff_ne,
    decide_eq_true_eq] at h ⊢
  omega

/-- **A printable break stands for itself**: it is a line feed or one of the two separators. -/
theorem breakText_of_printable {c : Char} (h : isPrintable c = true) (hb : isBreak c = true) :
    breakText c = [c] ∧ c ≠ '\r' ∧ (c ≠ '\n' → [c] ≠ ['\n']) := by
  rw [isBreak_iff] at hb
  simp only [isPrintable, Bool.or_eq_true, Bool.and_eq_true, beq_iff_eq, bne_iff_ne,
    decide_eq_true_eq] at h
  refine ⟨?_, ?_, fun hne he => hne (List.singleton_inj.1 he)⟩
  · unfold breakText
    split
    · rfl
    · have hfeed : c.toNat = '\n'.toNat := by
        have hvalue : '\n'.toNat = 0x0A := rfl
        omega
      rw [Char.toNat_inj.1 hfeed]
  · rintro rfl
    have hvalue : '\r'.toNat = 0x0D := rfl
    omega

/-- A printable character is no tab, and a blank one is a space. -/
theorem eq_space_of_blank {c : Char} (h : isPrintable c = true) (hb : isBlank c = true) : c = ' ' := by
  simp only [isBlank, Bool.or_eq_true, beq_iff_eq] at hb
  rcases hb with rfl | rfl
  · rfl
  · exact absurd h (by decide)

theorem isBlank_of_break {c : Char} (h : isBreak c = true) : isBlank c = false := by
  have hspace : isBreak ' ' = false := by decide
  have htab : isBreak '\t' = false := by decide
  have hne : c ≠ ' ' ∧ c ≠ '\t' :=
    ⟨by rintro rfl; simp [hspace] at h, by rintro rfl; simp [htab] at h⟩
  simp [isBlank, hne]

theorem ne_return_of_not_break {c : Char} (h : isBreak c = false) : c ≠ '\r' := by
  rintro rfl
  exact absurd h (by decide)

theorem ne_of_not_blank {c : Char} (h : isBlank c = false) : c ≠ ' ' ∧ c ≠ '\t' := by
  constructor
  · rintro rfl
    exact absurd h (by decide)
  · rintro rfl
    exact absurd h (by decide)

theorem spaces_succ_append (n : Nat) (rest : List Char) :
    spaces (n + 1) ++ rest = ' ' :: (spaces n ++ rest) := rfl

/-- No character of a pair stands at a place where the pair may not stand. -/
theorem hasPair_cons {p q : Char → Bool} {c : Char} {rest : List Char}
    (h : hasPair p q (c :: rest) = false) :
    hasPair p q rest = false ∧ (p c = true → ∀ d ∈ rest.head?, q d = false) := by
  cases rest with
  | nil => exact ⟨rfl, fun _ _ hd => nomatch hd⟩
  | cons d rest =>
    rw [hasPair, Bool.or_eq_false_iff, Bool.and_eq_false_iff] at h
    refine ⟨h.2, fun hp e he => ?_⟩
    obtain rfl : d = e := by simpa using he
    rcases h.1 with hc | hd
    · rw [hp] at hc
      cases hc
    · exact hd

/-- What follows a text decides about a gap only behind its end. -/
theorem atGap_append {text : List Char} (h : text ≠ []) (tail : List Char) :
    atGap (text ++ tail) = atGap text := by
  cases text with
  | nil => exact absurd rfl h
  | cons c text => rfl

/-! ## Places -/

namespace Place

@[simp]
theorem column_past (p : Place) (text : List Char) :
    (p.past text).column = p.column + text.length := by
  induction text generalizing p with
  | nil => rfl
  | cons c text ih =>
    have hstep := ih (p.next c)
    show ((p.next c).past text).column = _
    rw [hstep, List.length_cons]
    show p.column + 1 + text.length = _
    omega

@[simp]
theorem line_past (p : Place) (text : List Char) : (p.past text).line = p.line := by
  induction text generalizing p with
  | nil => rfl
  | cons c text ih => exact ih (p.next c)

theorem past_cons (p : Place) (c : Char) (text : List Char) :
    p.past (c :: text) = (p.next c).past text := rfl

@[simp]
theorem column_right (p : Place) (count : Nat) : (p.right count).column = p.column + count := rfl

@[simp]
theorem column_down (p : Place) (bytes : Nat) : (p.down bytes).column = 0 := rfl

theorem right_one_right (p : Place) (n : Nat) : (p.right 1).right n = p.right (n + 1) := by
  simp only [right, Place.mk.injEq, true_and]
  omega

end Place

/-! ## Gaps -/

namespace Gap

variable {gap : Gap}

/-- A blank behind a break is indentation. -/
theorem blank_of_broken (h : gap.broken = true) (c : Char) : gap.blank c = gap := by
  simp [blank, h]

/-- Any other blank is kept. -/
theorem blank_of_not_broken (h : gap.broken = false) (c : Char) :
    (gap.blank c).broken = false ∧ (gap.blank c).text = gap.text ++ [c] := by
  simp [blank, text, h]

end Gap

/-! ## Plain scalars -/

variable {text tail : List Char} {gap : Gap} {place : Place} {indent : Nat}

/-- A character of a plain scalar that is not at the front of a text with a return. -/
theorem readPlain_cons {c : Char} (hc : c ≠ '\r') (rest : List Char) :
    readPlain false indent place gap (c :: rest) =
      if isBlank c then
        if gap.broken && place.column < indent && c = '\t' then none
        else readPlain false indent (place.right 1) (gap.blank c) rest
      else if isBreak c then
        readPlain false indent (place.down c.utf8Size) (gap.lineBreak (breakText c)) rest
      else if gap.isPending && place.column < indent then
        some (⟨[], place, c :: rest⟩, gap)
      else if place.column = 0 && atDocumentMark (c :: rest) then some (⟨[], place, c :: rest⟩, gap)
      else if gap.isPending && c = '#' then some (⟨[], place, c :: rest⟩, gap)
      else if c = ':' && atGap rest then some (⟨[], place, c :: rest⟩, gap)
      else
        (readPlain false indent (place.next c) .empty rest).map fun (l, last) =>
          (l.cons (gap.text ++ [c]), last) := by
  have hcolon : isBadColon false c rest = false := by cases rest <;> simp [isBadColon]
  rw [readPlain]
  · simp [hcolon]
  · rintro rest' rfl
    exact absurd rfl hc

/-- Spaces behind a break are passed over. -/
theorem readPlain_spaces (hgap : gap.broken = true) (n : Nat) (rest : List Char) :
    readPlain false indent place gap (spaces n ++ rest) =
      readPlain false indent (place.right n) gap rest := by
  induction n generalizing place with
  | zero => rfl
  | succ n ih =>
    rw [spaces_succ_append, readPlain_cons (by decide)]
    simp only [show isBlank ' ' = true by decide, show ¬ (' ' = '\t') by decide, if_true,
      Gap.blank_of_broken hgap, decide_false, Bool.and_false, Bool.false_eq_true, if_false]
    rw [ih, Place.right_one_right]

/-- The characters of a plain scalar: no breaks, no blank at either end, no colon that ends a word and no
number sign behind a blank. -/
structure IsPlain (text : List Char) : Prop where
  noReturn : ∀ c ∈ text, isBreak c = false
  noTab : ∀ c ∈ text, isBlank c = true → c = ' '
  noKey : hasKeyMark text = false
  noComment : hasPair isGapChar (· == '#') text = false
  ends : text.getLast? ≠ some ' '

theorem IsPlain.of_cons {c : Char} (h : IsPlain (c :: text)) (ht : text ≠ []) : IsPlain text where
  noReturn d hd := h.noReturn d (List.mem_cons_of_mem _ hd)
  noTab d hd := h.noTab d (List.mem_cons_of_mem _ hd)
  noKey := (Bool.or_eq_false_iff.1 h.noKey).2
  noComment := (hasPair_cons h.noComment).1
  ends := by
    obtain ⟨d, t, rfl⟩ := List.exists_cons_of_ne_nil ht
    exact h.ends

/-- A character of a word takes the blanks before it, if none of the four things that end a plain scalar
is here. -/
theorem readPlain_character (gap : Gap) {c : Char} {rest : List Char} (hbroken : gap.broken = false)
    (hblank : isBlank c = false) (hbreak : isBreak c = false)
    (hcolumn : gap.blanks ≠ [] → indent ≤ place.column)
    (hmark : place.column = 0 → atDocumentMark (c :: rest) = false)
    (hcomment : gap.blanks ≠ [] → c ≠ '#') (hkey : (decide (c = ':') && atGap rest) = false) :
    readPlain false indent place gap (c :: rest) =
      (readPlain false indent (place.next c) .empty rest).map fun p =>
        (p.1.cons (gap.blanks ++ [c]), p.2) := by
  have hreturn : c ≠ '\r' := ne_return_of_not_break hbreak
  have htext : gap.text = gap.blanks := by simp [Gap.text, hbroken]
  have hpending : gap.isPending = true → gap.blanks ≠ [] := by
    intro h
    simpa [Gap.isPending, hbroken] using h
  have hdeep : (gap.isPending && decide (place.column < indent)) = false := by
    rw [Bool.and_eq_false_iff, decide_eq_false_iff_not]
    by_cases hp : gap.isPending = true
    · exact Or.inr (by have := hcolumn (hpending hp); omega)
    · exact Or.inl (by simpa using hp)
  have hdocument : (decide (place.column = 0) && atDocumentMark (c :: rest)) = false := by
    rw [Bool.and_eq_false_iff, decide_eq_false_iff_not]
    by_cases hzero : place.column = 0
    · exact Or.inr (hmark hzero)
    · exact Or.inl hzero
  have hnumber : (gap.isPending && decide (c = '#')) = false := by
    rw [Bool.and_eq_false_iff, decide_eq_false_iff_not]
    by_cases hp : gap.isPending = true
    · exact Or.inr (hcomment (hpending hp))
    · exact Or.inl (by simpa using hp)
  rw [readPlain_cons hreturn]
  simp only [hblank, hbreak, hdeep, hdocument, hnumber, hkey, htext, Bool.false_eq_true, if_false]

/-- **A plain scalar reads back**, up to what ends it. Blanks that were read before it belong to it. -/
theorem readPlain_text (gap : Gap) (place : Place) (ht : IsPlain text) (hne : text ≠ [])
    (hbroken : gap.broken = false)
    (hcolumn : gap.blanks ≠ [] ∨ (∃ c ∈ text, isBlank c = true) → indent ≤ place.column)
    (hmark : place.column = 0 → atDocumentMark (text ++ tail) = false)
    (hcomment : gap.blanks ≠ [] → text.head? ≠ some '#') {l : Lexeme} {last : Gap}
    (hend : readPlain false indent (place.past text) .empty tail = some (l, last)) :
    readPlain false indent place gap (text ++ tail) = some (l.cons (gap.blanks ++ text), last) := by
  induction text generalizing gap place with
  | nil => exact absurd rfl hne
  | cons c text ih =>
    have hbreak : isBreak c = false := ht.noReturn c List.mem_cons_self
    rw [List.cons_append] at hmark ⊢
    by_cases hblank : isBlank c = true
    · -- a space is kept until the next word comes; there is one, as no blank ends the text
      obtain rfl : c = ' ' := ht.noTab c List.mem_cons_self hblank
      have hrest : text ≠ [] := by
        rintro rfl
        exact ht.ends rfl
      have hle : indent ≤ place.column := hcolumn (Or.inr ⟨' ', List.mem_cons_self, hblank⟩)
      have hnext := ih (gap.blank ' ') (place.right 1) (ht.of_cons hrest) hrest
        (by simp [Gap.blank, hbroken]) (fun _ => by rw [Place.column_right]; omega)
        (fun h => by rw [Place.column_right] at h; omega)
        (fun _ he => by simpa using (hasPair_cons ht.noComment).2 (by decide) '#' he) hend
      rw [readPlain_cons (by decide)]
      simp only [hblank, if_true, show ¬ (' ' = '\t') by decide, decide_false, Bool.and_false,
        Bool.false_eq_true, if_false, hnext]
      simp [Gap.blank, hbroken, List.append_assoc]
    · have hkey : (decide (c = ':') && atGap text) = false := (Bool.or_eq_false_iff.1 ht.noKey).1
      have hnumber : gap.blanks ≠ [] → c ≠ '#' := fun hp he => hcomment hp (he ▸ rfl)
      by_cases hrest : text = []
      · subst hrest
        have hcolon : c ≠ ':' := by simpa [atGap] using hkey
        have hstop : readPlain false indent (place.next c) .empty tail = some (l, last) := hend
        rw [List.nil_append] at hmark ⊢
        rw [readPlain_character gap hbroken (by simpa using hblank) hbreak
          (fun hp => hcolumn (Or.inl hp)) hmark hnumber (by simp [hcolon]), hstop]
        rfl
      · have hnext := ih .empty (place.next c) (ht.of_cons hrest) hrest rfl
          (fun h => by
            have hle := hcolumn (Or.inr ?_)
            · show indent ≤ place.column + 1
              omega
            · rcases h with h | ⟨d, hd, hdb⟩
              · exact absurd rfl h
              · exact ⟨d, List.mem_cons_of_mem _ hd, hdb⟩)
          (fun h => absurd h (Nat.succ_ne_zero _)) (fun h => absurd rfl h) hend
        have hgap : (decide (c = ':') && atGap (text ++ tail)) = false := by
          rw [atGap_append hrest]
          exact hkey
        rw [readPlain_character gap hbroken (by simpa using hblank) hbreak
          (fun hp => hcolumn (Or.inl hp)) hmark hnumber hgap, hnext]
        simp [Lexeme.cons, Gap.empty, List.append_assoc]

/-- A colon that ends a word ends a plain scalar. -/
theorem readPlain_colon {rest : List Char} (h : atGap rest = true) :
    readPlain false indent place .empty (':' :: rest) = some (⟨[], place, ':' :: rest⟩, .empty) := by
  have hdocument : atDocumentMark (':' :: rest) = false := rfl
  rw [readPlain_cons (by decide)]
  simp [show isBlank ':' = false by decide, show isBreak ':' = false by decide, hdocument, h,
    Gap.isPending, Gap.empty]

/-- A line that is not deep enough ends a plain scalar. -/
theorem readPlain_line {c : Char} {n : Nat} (hn : n < indent) (hblank : isBlank c = false)
    (hbreak : isBreak c = false) (rest : List Char) :
    readPlain false indent place .empty ('\n' :: (spaces n ++ c :: rest)) =
      some (⟨[], (place.down 1).right n, c :: rest⟩, ⟨[], ['\n'], [], true⟩) := by
  have hreturn : c ≠ '\r' := ne_return_of_not_break hbreak
  have hcolumn : ((place.down 1).right n).column < indent := by
    rw [Place.column_right, Place.column_down]
    omega
  have hfeed : readPlain false indent place .empty ('\n' :: (spaces n ++ c :: rest)) =
      readPlain false indent (place.down 1) ⟨[], ['\n'], [], true⟩ (spaces n ++ c :: rest) := by
    rw [readPlain_cons (by decide)]
    rfl
  rw [hfeed, readPlain_spaces rfl, readPlain_cons hreturn]
  simp only [hblank, hbreak, Gap.isPending, hcolumn, Bool.false_eq_true, if_false, Bool.true_or,
    decide_true, Bool.and_self, if_true]

/-- The end of the last line ends a plain scalar. -/
theorem readPlain_end : readPlain false indent place .empty ['\n'] =
    some (⟨[], place.down 1, []⟩, ⟨[], ['\n'], [], true⟩) := by
  rw [readPlain_cons (by decide)]
  rfl

/-! ## Single quotes -/

theorem readSingle_cons {c : Char} (hreturn : c ≠ '\r') (hquote : c ≠ '\'') (rest : List Char) :
    readSingle place gap (c :: rest) =
      if isBlank c then readSingle (place.right 1) (gap.blank c) rest
      else if isBreak c then readSingle (place.down c.utf8Size) (gap.lineBreak (breakText c)) rest
      else if place.column = 0 && atDocumentMark (c :: rest) then none
      else (readSingle (place.next c) .empty rest).map (Lexeme.cons (gap.text ++ [c])) := by
  rw [readSingle]
  · simp [hquote]
  · rintro rest' rfl
    exact absurd rfl hreturn
  · rintro rest' rfl
    exact absurd rfl hquote

/-- The indentation of a line is passed over. -/
theorem readSingle_spaces (hgap : gap.broken = true) (n : Nat) (rest : List Char) :
    readSingle place gap (spaces n ++ rest) = readSingle (place.right n) gap rest := by
  induction n generalizing place with
  | zero => rfl
  | succ n ih =>
    rw [spaces_succ_append, readSingle_cons (by decide) (by decide), if_pos (by decide),
      Gap.blank_of_broken hgap, ih, Place.right_one_right]

/-- A character of a word, a quote written twice. -/
theorem readSingle_word (gap : Gap) {c : Char} (hblank : isBlank c = false) (hbreak : isBreak c = false)
    (hcolumn : 0 < place.column) (rest : List Char) :
    ∃ next : Place, 0 < next.column ∧
      readSingle place gap ((if c = '\'' then ['\'', '\''] else [c]) ++ rest) =
        (readSingle next .empty rest).map (Lexeme.cons (gap.text ++ [c])) := by
  by_cases hquote : c = '\''
  · subst hquote
    refine ⟨place.right 2, by rw [Place.column_right]; omega, ?_⟩
    rw [if_pos rfl, List.cons_append, List.cons_append, List.nil_append, readSingle]
  · have hreturn : c ≠ '\r' := ne_return_of_not_break hbreak
    refine ⟨place.next c, Nat.succ_pos _, ?_⟩
    rw [if_neg hquote, List.singleton_append, readSingle_cons hreturn hquote]
    have hzero : ¬ place.column = 0 := by omega
    simp [hblank, hbreak, hzero]

/-- The closing quote, with a gap before it. -/
theorem readSingle_close (htail : tail.head? ≠ some '\'') :
    readSingle place gap ('\'' :: tail) = some ⟨gap.text, place.right 1, tail⟩ := by
  rw [readSingle]
  · simp [show isBlank '\'' = false by decide, show isBreak '\'' = false by decide]
  · intro rest hfeed
    exact absurd hfeed (by decide)
  · rintro rest - rfl
    exact htail rfl

/-- A separator adds itself to a gap. -/
theorem Gap.text_lineBreak {c : Char} (hfeed : c ≠ '\n') (hfirst : gap.first ≠ ['\n'])
    (hblanks : gap.broken = false → gap.blanks = []) :
    (gap.lineBreak [c]).broken = true ∧ (gap.lineBreak [c]).first ≠ ['\n'] ∧
      (gap.lineBreak [c]).text = gap.text ++ [c] := by
  by_cases hgap : gap.broken = true
  · simp [Gap.lineBreak, Gap.text, hgap, hfirst]
  · have hnone := hblanks (by simpa using hgap)
    simp [Gap.lineBreak, Gap.text, hgap, hnone, hfeed]

section Single

variable {c : Char}

/-- A separator goes on with the gap. -/
theorem readSingle_break (hprint : isPrintable c = true) (hcb : isBreak c = true) (hfeed : c ≠ '\n')
    (broken : Bool) : readSingle place gap (singleChars indent broken (c :: text) ++ tail) =
      readSingle (place.down c.utf8Size) (gap.lineBreak [c]) (singleChars indent true text ++ tail) := by
  obtain ⟨hstands, hreturn, -⟩ := breakText_of_printable hprint hcb
  have hquote : c ≠ '\'' := by
    rintro rfl
    exact absurd hcb (by decide)
  rw [singleChars, if_pos hcb]
  simp only [hfeed, decide_false, Bool.false_and, Bool.false_eq_true, if_false, List.cons_append]
  rw [readSingle_cons hreturn hquote, isBlank_of_break hcb, hcb, hstands]
  rfl

/-- A space within a line goes to the gap. -/
theorem readSingle_blank : readSingle place gap (singleChars indent false (' ' :: text) ++ tail) =
    readSingle (place.right 1) (gap.blank ' ') (singleChars indent false text ++ tail) := by
  have hbreak : isBreak ' ' = false := by decide
  have hquote : ' ' ≠ '\'' := by decide
  rw [singleChars, hbreak]
  simp only [Bool.false_eq_true, if_false, hquote, List.nil_append, List.cons_append]
  rw [readSingle_cons (by decide) (by decide), if_pos (by decide)]

/-- Any other character takes the gap before it, and with it the indentation of its line. -/
theorem readSingle_character (hblank : isBlank c = false) (hbreak : isBreak c = false)
    (hindent : 0 < indent) (hopen : gap.broken = false → 0 < place.column) :
    ∃ next : Place, 0 < next.column ∧
      readSingle place gap (singleChars indent gap.broken (c :: text) ++ tail) =
        (readSingle next .empty (singleChars indent false text ++ tail)).map
          (Lexeme.cons (gap.text ++ [c])) := by
  rw [singleChars, if_neg (by simp [hbreak])]
  by_cases hgap : gap.broken = true
  · have hcolumn : 0 < (place.right indent).column := by
      rw [Place.column_right]
      omega
    rw [if_pos hgap, List.append_assoc, List.append_assoc, readSingle_spaces hgap]
    exact readSingle_word gap hblank hbreak hcolumn _
  · rw [if_neg hgap, List.nil_append, List.append_assoc]
    exact readSingle_word gap hblank hbreak (hopen (by simpa using hgap)) _

end Single

/-- **A scalar in single quotes reads back.** A gap that was read before it belongs to it: blanks of the
same line, or separators with the indentation behind them. -/
theorem readSingle_written (gap : Gap) (place : Place) (tail : List Char) (hindent : 0 < indent)
    (hprint : ∀ c ∈ text, isPrintable c = true)
    (hfeed : '\n' ∉ text) (hspace : hasPair isSpace isBreak text = false)
    (hbreak : hasPair isBreak isSpace text = false) (hfirst : gap.first ≠ ['\n'])
    (hopen : gap.broken = false → 0 < place.column)
    (hblanks : gap.broken = false → gap.blanks ≠ [] → ∀ c ∈ text.head?, isBreak c = false)
    (hlines : gap.broken = true → ∀ c ∈ text.head?, isSpace c = false)
    (htail : tail.head? ≠ some '\'') :
    ∃ last : Place, readSingle place gap (singleChars indent gap.broken text ++ tail) =
      some ⟨gap.text ++ text, last, tail⟩ := by
  induction text generalizing gap place with
  | nil =>
    rw [List.append_nil]
    by_cases hgap : gap.broken = true
    · refine ⟨(place.right indent).right 1, ?_⟩
      rw [singleChars, if_pos hgap, List.append_assoc, readSingle_spaces hgap]
      exact readSingle_close htail
    · refine ⟨place.right 1, ?_⟩
      rw [singleChars, if_neg hgap]
      exact readSingle_close htail
  | cons c text ih =>
    have hc : isPrintable c = true := hprint c List.mem_cons_self
    have hprint' : ∀ d ∈ text, isPrintable d = true := fun d hd =>
      hprint d (List.mem_cons_of_mem _ hd)
    have hne : c ≠ '\n' := fun h => hfeed (h ▸ List.mem_cons_self)
    have hfeed' : '\n' ∉ text := fun h => hfeed (List.mem_cons_of_mem _ h)
    obtain ⟨hspace', hafterSpace⟩ := hasPair_cons hspace
    obtain ⟨hbreak', hafterBreak⟩ := hasPair_cons hbreak
    by_cases hcb : isBreak c = true
    · -- the gap has no blanks of the line that ends here
      have hnone : gap.broken = false → gap.blanks = [] := fun hgap => by
        by_contra hsome
        have hno := hblanks hgap hsome c rfl
        rw [hcb] at hno
        cases hno
      obtain ⟨hwide, hfirst', htext⟩ := Gap.text_lineBreak hne hfirst hnone
      obtain ⟨last, hlast⟩ := ih (gap.lineBreak [c]) (place.down c.utf8Size) hprint' hfeed'
        hspace' hbreak' hfirst' (fun h => by rw [hwide] at h; cases h)
        (fun h => by rw [hwide] at h; cases h) (fun _ => hafterBreak hcb)
      rw [hwide, htext] at hlast
      refine ⟨last, ?_⟩
      rw [readSingle_break hc hcb hne, hlast]
      simp
    by_cases hblank : isBlank c = true
    · obtain rfl : c = ' ' := eq_space_of_blank hc hblank
      have hgap : gap.broken = false := by
        by_contra hgap
        have hno := hlines (by simpa using hgap) ' ' rfl
        exact absurd hno (by decide)
      obtain ⟨hkeep, htext⟩ := Gap.blank_of_not_broken hgap ' '
      obtain ⟨last, hlast⟩ := ih (gap.blank ' ') (place.right 1) hprint' hfeed'
        hspace' hbreak' (by simpa [Gap.blank, hgap] using hfirst)
        (fun _ => by rw [Place.column_right]; omega)
        (fun _ _ => hafterSpace (by decide)) (fun h => by rw [hkeep] at h; cases h)
      rw [hkeep, htext] at hlast
      refine ⟨last, ?_⟩
      rw [hgap, readSingle_blank, hlast]
      simp
    · obtain ⟨next, hnext, hstep⟩ := readSingle_character (by simpa using hblank)
        (by simpa using hcb) hindent hopen
      obtain ⟨last, hlast⟩ := ih .empty next hprint' hfeed' hspace' hbreak'
        (by simp [Gap.empty]) (fun _ => hnext) (fun _ h => absurd rfl h) (fun h => nomatch h)
      have hempty : Gap.empty.broken = false := rfl
      rw [hempty] at hlast
      refine ⟨last, ?_⟩
      rw [hstep, hlast]
      simp [Lexeme.cons, Gap.text, Gap.empty, List.append_assoc]

/-! ## Double quotes -/

theorem hexDigit?_upperHex {n : Nat} (h : n < 16) : hexDigit? (upperHex n) = some n := by
  have hall : ∀ i : Fin 16, hexDigit? (upperHex i) = some i.val := by decide
  exact hall ⟨n, h⟩

/-- The last digits of a number read back. -/
theorem hexNumber?_hexDigits (count n : Nat) :
    hexNumber? (hexDigits count n) = some (n % Nat.pow 16 count) := by
  induction count generalizing n with
  | zero =>
    have hone : n % Nat.pow 16 0 = 0 := Nat.mod_one n
    rw [hone]
    rfl
  | succ count ih =>
    have hfront := ih (n / 16)
    have hlast : hexDigit? (upperHex (n % 16)) = some (n % 16) :=
      hexDigit?_upperHex (Nat.mod_lt n (by decide))
    have hsplit : n % Nat.pow 16 (count + 1) = n / 16 % Nat.pow 16 count * 16 + n % 16 := by
      have hpow : Nat.pow 16 (count + 1) = 16 * Nat.pow 16 count := Nat.pow_succ'
      rw [hpow, Nat.mod_mul]
      omega
    unfold hexNumber? at hfront ⊢
    rw [hexDigits, List.foldlM_append, hfront, hsplit]
    simp [hlast]

/-- **The number of a character reads back**, if it has enough digits. -/
theorem numberEscape?_hexDigits {c : Char} {count : Nat} (h : c.toNat < Nat.pow 16 count) :
    numberEscape? (hexDigits count c.toNat) = some c := by
  have hvalid : c.toNat.isValidChar := c.valid
  rw [numberEscape?, hexNumber?_hexDigits, Nat.mod_eq_of_lt h, Option.bind_some, charOfNumber?,
    if_pos hvalid, Char.ofNat_toNat]

/-- The letters that are written behind a backslash, with the numbers of what they stand for. -/
def escapeLetters : List (Nat × Char) := [(0x00, '0'), (0x07, 'a'), (0x08, 'b'), (0x09, 't'), (0x0A, 'n'),
  (0x0B, 'v'), (0x0C, 'f'), (0x0D, 'r'), (0x1B, 'e'), (0x22, '"'), (0x5C, '\\'), (0x85, 'N'),
  (0x2028, 'L'), (0x2029, 'P')]

/-- The reader takes each of these letters for the character. -/
theorem letterEscape?_escapeLetters : ∀ p ∈ escapeLetters,
    letterEscape? p.2 = some (Char.ofNat p.1) ∧ isBreak p.2 = false := by decide

theorem elim_lookup_cons {β : Type} (n k : Nat) (e : Char) (rest : List (Nat × Char)) (b : β)
    (f : Char → β) :
    (((k, e) :: rest).lookup n).elim b f = if n = k then f e else (rest.lookup n).elim b f := by
  rw [List.lookup_cons]
  by_cases h : n = k
  · simp [h]
  · rw [beq_false_of_ne h, if_neg h]

/-- A character that may not stand for itself is written with its letter, if it has one, and by its number
if it has none. -/
theorem doubleChar_escaped {c : Char}
    (h : ¬ (isPrintable c && !isBreak c && c ≠ '"' && c ≠ '\\') = true) :
    doubleChar c = (escapeLetters.lookup c.toNat).elim
      (if c.toNat ≤ 0xFF then '\\' :: 'x' :: hexDigits 2 c.toNat
        else if c.toNat ≤ 0xFFFF then '\\' :: 'u' :: hexDigits 4 c.toNat
        else '\\' :: 'U' :: hexDigits 8 c.toNat) (['\\', ·]) := by
  unfold doubleChar
  rw [if_neg h]
  simp only [escapeLetters, elim_lookup_cons, List.lookup_nil, Option.elim_none]

/-- The ways to write a character between double quotes: itself, a letter behind a backslash, or its
number. -/
theorem doubleChar_cases (c : Char) :
    (isPrintable c = true ∧ isBreak c = false ∧ c ≠ '"' ∧ c ≠ '\\' ∧ doubleChar c = [c]) ∨
      (∃ e, letterEscape? e = some c ∧ isBreak e = false ∧ c ≠ ' ' ∧ doubleChar c = ['\\', e]) ∨
      (∃ mark count, ((mark = 'x' ∧ count = 2) ∨ (mark = 'u' ∧ count = 4) ∨ (mark = 'U' ∧ count = 8)) ∧
        c.toNat < Nat.pow 16 count ∧ c ≠ ' ' ∧
          doubleChar c = '\\' :: mark :: hexDigits count c.toNat) := by
  by_cases hplain : (isPrintable c && !isBreak c && c ≠ '"' && c ≠ '\\') = true
  · have hself : doubleChar c = [c] := by
      unfold doubleChar
      rw [if_pos hplain]
    simp only [Bool.and_eq_true, Bool.not_eq_true', decide_eq_true_eq] at hplain
    exact Or.inl ⟨hplain.1.1.1, hplain.1.1.2, hplain.1.2, hplain.2, hself⟩
  have hspace : c ≠ ' ' := by
    rintro rfl
    exact hplain (by decide)
  rw [doubleChar_escaped hplain]
  right
  cases hletter : escapeLetters.lookup c.toNat with
  | some e =>
    have hmem : (c.toNat, e) ∈ escapeLetters := by
      obtain ⟨before, after, hsplit, -⟩ := List.lookup_eq_some_iff.1 hletter
      rw [hsplit]
      exact List.mem_append_right _ List.mem_cons_self
    obtain ⟨hread, hbreak⟩ := letterEscape?_escapeLetters _ hmem
    rw [Char.ofNat_toNat] at hread
    exact Or.inl ⟨e, hread, hbreak, hspace, rfl⟩
  | none =>
    right
    rw [Option.elim_none]
    by_cases hbyte : c.toNat ≤ 0xFF
    · rw [if_pos hbyte]
      exact ⟨'x', 2, by simp, Nat.lt_succ_of_le hbyte, hspace, rfl⟩
    rw [if_neg hbyte]
    by_cases hword : c.toNat ≤ 0xFFFF
    · rw [if_pos hword]
      exact ⟨'u', 4, by simp, Nat.lt_succ_of_le hword, hspace, rfl⟩
    · have hlimit : c.toNat < 0x110000 := by
        have hvalue : c.toNat = c.val.toNat := rfl
        rcases c.valid with h | ⟨-, h⟩ <;> omega
      rw [if_neg hword]
      exact ⟨'U', 8, by simp, Nat.lt_trans hlimit (by decide), hspace, rfl⟩

/-- An escape gives its character and takes the gap before it. -/
theorem readDouble_number {c : Char} {count : Nat} {mark : Char} {rest : List Char}
    (hmark : (mark = 'x' ∧ count = 2) ∨ (mark = 'u' ∧ count = 4) ∨ (mark = 'U' ∧ count = 8))
    (hc : c.toNat < Nat.pow 16 count) :
    readDouble place gap ('\\' :: mark :: (hexDigits count c.toNat ++ rest)) =
      (readDouble (place.right (count + 2)) .empty rest).map (Lexeme.cons (gap.text ++ [c])) := by
  have hnumber := numberEscape?_hexDigits hc
  have hescape : ∀ l, consEscape gap (numberEscape? (hexDigits count c.toNat)) l =
      l.map (Lexeme.cons (gap.text ++ [c])) := fun l => by rw [hnumber]; rfl
  rcases hmark with ⟨rfl, rfl⟩ | ⟨rfl, rfl⟩ | ⟨rfl, rfl⟩
  · exact hescape _
  · exact hescape _
  · exact hescape _

theorem readDouble_letter {c e : Char} {rest : List Char} (he : letterEscape? e = some c)
    (hbreak : isBreak e = false) :
    readDouble place gap ('\\' :: e :: rest) =
      (readDouble ((place.right 1).next e) .empty rest).map (Lexeme.cons (gap.text ++ [c])) := by
  have hmark : ∀ {d : Char}, letterEscape? d = none → e ≠ d := by
    rintro d hd rfl
    rw [hd] at he
    cases he
  have hx : e ≠ 'x' := hmark rfl
  have hu : e ≠ 'u' := hmark rfl
  have hU : e ≠ 'U' := hmark rfl
  have hreturn : e ≠ '\r' := ne_return_of_not_break hbreak
  rw [readDouble.eq_def]
  simp [hx, hu, hU, hreturn, hbreak, consEscape, he]

/-- **A character between double quotes reads back.** A space goes to the gap; any other one takes the
gap before it. -/
theorem readDouble_doubleChar (gap : Gap) (c : Char) (hcolumn : 0 < place.column) (rest : List Char) :
    ∃ next : Place, 0 < next.column ∧ readDouble place gap (doubleChar c ++ rest) =
      if c = ' ' then readDouble next (gap.blank ' ') rest
      else (readDouble next .empty rest).map (Lexeme.cons (gap.text ++ [c])) := by
  have hfar : ∀ count, 0 < (place.right (count + 1)).column := fun count => by
    rw [Place.column_right]
    omega
  rcases doubleChar_cases c with ⟨hprint, hbreak, hquote, hslash, hc⟩ | ⟨e, he, hbreak, hspace, hc⟩ |
      ⟨mark, count, hmark, hn, hspace, hc⟩
  · have hreturn : c ≠ '\r' := ne_return_of_not_break hbreak
    have hplain : readDouble place gap (c :: rest) =
        if isBlank c then readDouble (place.right 1) (gap.blank c) rest
        else (readDouble (place.next c) .empty rest).map (Lexeme.cons (gap.text ++ [c])) := by
      have hzero : ¬ place.column = 0 := by omega
      rw [readDouble.eq_def]
      simp [hreturn, hslash, hbreak, hquote, hzero]
    rw [hc, List.singleton_append, hplain]
    by_cases hblank : isBlank c = true
    · obtain rfl := eq_space_of_blank hprint hblank
      exact ⟨place.right 1, hfar 0, by rw [if_pos hblank, if_pos rfl]⟩
    · have hspace : c ≠ ' ' := by
        rintro rfl
        exact hblank (by decide)
      exact ⟨place.next c, Nat.succ_pos _, by rw [if_neg hblank, if_neg hspace]⟩
  · refine ⟨(place.right 1).next e, Nat.succ_pos _, ?_⟩
    rw [hc, if_neg hspace]
    exact readDouble_letter he hbreak
  · refine ⟨place.right (count + 2), hfar (count + 1), ?_⟩
    rw [hc, if_neg hspace]
    exact readDouble_number hmark hn

/-- **A scalar in double quotes reads back**, whatever characters it has. -/
theorem readDouble_written (gap : Gap) (place : Place) (text tail : List Char)
    (hgap : gap.broken = false) (hcolumn : 0 < place.column) :
    ∃ last : Place, readDouble place gap (text.flatMap doubleChar ++ '"' :: tail) =
      some ⟨gap.text ++ text, last, tail⟩ := by
  induction text generalizing gap place with
  | nil =>
    refine ⟨place.right 1, ?_⟩
    rw [List.flatMap_nil, List.nil_append, List.append_nil, readDouble.eq_def]
    simp [show isBlank '"' = false by decide, show isBreak '"' = false by decide]
  | cons c text ih =>
    obtain ⟨next, hnext, hstep⟩ := readDouble_doubleChar gap c hcolumn
      (text.flatMap doubleChar ++ '"' :: tail)
    rw [List.flatMap_cons, List.append_assoc, hstep]
    by_cases hspace : c = ' '
    · subst hspace
      obtain ⟨hkeep, htext⟩ := Gap.blank_of_not_broken hgap ' '
      obtain ⟨last, hlast⟩ := ih (gap.blank ' ') next hkeep hnext
      refine ⟨last, ?_⟩
      rw [if_pos rfl, hlast, htext]
      simp
    · obtain ⟨last, hlast⟩ := ih .empty next rfl hnext
      refine ⟨last, ?_⟩
      rw [if_neg hspace, hlast]
      simp [Lexeme.cons, Gap.text, Gap.empty]

end CallIndex.Yaml
