import CallIndex.Proofs.YamlScalar

/-!
# Blocks of lines read back

A text with line feeds is written as a block: a header and the lines, each behind spaces. The header says
how deep the lines are, if the first one does not show it, and how many of the breaks at the end belong to
the text.

* `Lines`: a text cut into its lines, and the breaks at its end. `exists_lines`: every text is some breaks
  and lines after them.
* `readEmptyLines_written`: the breaks in front of a line are all read, up to the line.
* `readLines_written`: **the lines of a block read back**, with the breaks that the header keeps.
* `readBlock_written`: **a block reads back**.
-/

namespace CallIndex.Yaml

variable {text tail trailing breaks line : List Char} {place : Place} {parent : Nat}

/-! ## Lines -/

/-- A text that starts with a line, and the breaks after its last line. -/
inductive Lines : List Char → List Char → Prop
  | last {c : Char} {line breaks : List Char} (hline : ∀ d ∈ c :: line, isBreak d = false)
      (hbreaks : ∀ d ∈ breaks, isBreak d = true) : Lines (c :: line ++ breaks) breaks
  | more {c b : Char} {line breaks text trailing : List Char}
      (hline : ∀ d ∈ c :: line, isBreak d = false) (hbreaks : ∀ d ∈ b :: breaks, isBreak d = true)
      (hrest : Lines text trailing) : Lines (c :: line ++ b :: breaks ++ text) trailing

/-- A character in front of a line belongs to the line. -/
theorem Lines.cons {c : Char} (hc : isBreak c = false) (h : Lines text trailing) :
    Lines (c :: text) trailing := by
  have hwider : ∀ {d : Char} {line : List Char}, (∀ e ∈ d :: line, isBreak e = false) →
      ∀ e ∈ c :: d :: line, isBreak e = false := fun hline => List.forall_mem_cons.2 ⟨hc, hline⟩
  cases h with
  | last hline hbreaks => exact .last (hwider hline) hbreaks
  | more hline hbreaks hrest => exact .more (hwider hline) hbreaks hrest

/-- **Every text is some breaks and lines after them**, if anything is after them. -/
theorem exists_lines (text : List Char) : ∃ breaks rest, text = breaks ++ rest ∧
    (∀ d ∈ breaks, isBreak d = true) ∧ (rest = [] ∨ ∃ trailing, Lines rest trailing) := by
  induction text with
  | nil => exact ⟨[], [], rfl, List.forall_mem_nil _, Or.inl rfl⟩
  | cons c text ih =>
    obtain ⟨breaks, rest, rfl, hbreaks, hrest⟩ := ih
    by_cases hc : isBreak c = true
    · exact ⟨c :: breaks, rest, rfl, List.forall_mem_cons.2 ⟨hc, hbreaks⟩, hrest⟩
    · -- the line of the character ends at the breaks, or goes on with the first line after none
      have hc' : isBreak c = false := by simpa using hc
      have hline : ∀ d ∈ [c], isBreak d = false := List.forall_mem_singleton.2 hc'
      refine ⟨[], c :: (breaks ++ rest), rfl, List.forall_mem_nil _, Or.inr ?_⟩
      rcases hrest with rfl | ⟨trailing, hrest⟩
      · rw [List.append_nil]
        exact ⟨breaks, .last hline hbreaks⟩
      · cases breaks with
        | nil => exact ⟨trailing, hrest.cons hc'⟩
        | cons b breaks => exact ⟨trailing, .more hline hbreaks hrest⟩

/-! ## Empty lines -/

/-- The break of a line that is written as it is. -/
theorem takeBreak?_printable {b : Char} (hprint : isPrintable b = true) (hb : isBreak b = true)
    (rest : List Char) : takeBreak? (b :: rest) = some ([b], b.utf8Size, rest) := by
  obtain ⟨hstands, hreturn, -⟩ := breakText_of_printable hprint hb
  rw [takeBreak?]
  · rw [if_pos hb, hstands]
  · rintro rest' rfl
    exact absurd rfl hreturn

/-- Spaces are passed over up to the depth. -/
theorem readEmptyLines_spaces {depth : Option Nat} {widest n : Nat}
    (h : ∀ d ∈ depth, place.column + n ≤ d) (rest : List Char) :
    readEmptyLines depth place widest (spaces n ++ rest) =
      readEmptyLines depth (place.right n) widest rest := by
  induction n generalizing place with
  | zero => rfl
  | succ n ih =>
    have hwithin : (depth.all fun d => place.column < d) = true := by
      cases depth with
      | none => rfl
      | some d =>
        have hd := h d rfl
        simp only [Option.all_some, decide_eq_true_eq]
        omega
    have hrest := @ih (place.right 1) fun d hd => by
      have hdeep := h d hd
      rw [Place.column_right]
      omega
    rw [spaces_succ_append, readEmptyLines.eq_def]
    simp [hwithin, hrest, Place.right_one_right]

/-- A line begins behind its indentation. -/
theorem readEmptyLines_line {depth : Option Nat} {widest : Nat} {c : Char} (hc : isBreak c = false)
    (hblank : isBlank c = true → ∃ d ∈ depth, d ≤ place.column) (rest : List Char) :
    readEmptyLines depth place widest (c :: rest) =
      some ([], max widest place.column, place, c :: rest) := by
  have hreturn : c ≠ '\r' := ne_return_of_not_break hc
  have hwithin : isBlank c = true → (depth.all fun d => place.column < d) = false := by
    intro hb
    obtain ⟨d, hd, hle⟩ := hblank hb
    obtain rfl : depth = some d := hd
    simpa using hle
  rw [readEmptyLines.eq_def]
  by_cases hb : isBlank c = true
  · simp [hreturn, hwithin hb, hc]
  · obtain ⟨hspace, htab⟩ := ne_of_not_blank (by simpa using hb)
    simp [hreturn, hspace, htab, hc]

/-- **The breaks in front of a line are all read**, up to the line. It is as deep as the block, or it is the
first line behind the block. -/
theorem readEmptyLines_written (widest : Nat) {depth n : Nat} {c : Char} (rest : List Char)
    (hprint : ∀ d ∈ breaks, isPrintable d = true) (hbreaks : ∀ d ∈ breaks, isBreak d = true)
    (hcolumn : place.column = 0) (hn : n ≤ depth) (hc : isBreak c = false)
    (hblank : n < depth → isBlank c = false) :
    ∃ (most : Nat) (next : Place), next.column = n ∧
      readEmptyLines (some depth) place widest (breaks ++ (spaces n ++ c :: rest)) =
        some (breaks, most, next, c :: rest) := by
  induction breaks generalizing place widest with
  | nil =>
    refine ⟨max widest (place.right n).column, place.right n, by rw [Place.column_right, hcolumn, Nat.zero_add], ?_⟩
    rw [List.nil_append, readEmptyLines_spaces, readEmptyLines_line hc]
    · intro hb
      refine ⟨depth, rfl, ?_⟩
      rw [Place.column_right]
      by_contra hshallow
      rw [hblank (by omega)] at hb
      cases hb
    · intro d hd
      obtain rfl : depth = d := Option.some.inj hd
      omega
  | cons b breaks ih =>
    have hb : isBreak b = true := hbreaks b List.mem_cons_self
    obtain ⟨hstands, hreturn, -⟩ := breakText_of_printable (hprint b List.mem_cons_self) hb
    obtain ⟨hspace, htab⟩ := ne_of_not_blank (isBlank_of_break hb)
    obtain ⟨most, next, hnext, hread⟩ := @ih (place.down b.utf8Size) (max widest place.column)
      (fun d hd => hprint d (List.mem_cons_of_mem _ hd))
      (fun d hd => hbreaks d (List.mem_cons_of_mem _ hd)) rfl
    refine ⟨most, next, hnext, ?_⟩
    rw [List.cons_append, readEmptyLines.eq_def]
    simp [hreturn, hspace, htab, hb, hread, hstands]

/-! ## What is written -/

theorem blockChars_breaks (indent : Nat) (h : ∀ d ∈ breaks, isBreak d = true) (text : List Char) :
    blockChars indent true (breaks ++ text) = breaks ++ blockChars indent true text := by
  induction breaks with
  | nil => rfl
  | cons b breaks ih =>
    obtain ⟨hb, hrest⟩ := List.forall_mem_cons.1 h
    rw [List.cons_append, blockChars, if_pos hb, ih hrest, List.cons_append]

/-- Behind a break, a line begins. -/
theorem blockChars_break (indent : Nat) {b : Char} (h : ∀ d ∈ b :: breaks, isBreak d = true)
    (afterBreak : Bool) (text : List Char) :
    blockChars indent afterBreak (b :: breaks ++ text) =
      b :: breaks ++ blockChars indent true text := by
  obtain ⟨hb, hrest⟩ := List.forall_mem_cons.1 h
  rw [List.cons_append, blockChars, if_pos hb, blockChars_breaks indent hrest, List.cons_append]

theorem blockChars_line {indent : Nat} (line : List Char) (h : ∀ d ∈ line, isBreak d = false) (text : List Char) :
    blockChars indent false (line ++ text) = line ++ blockChars indent false text := by
  induction line with
  | nil => rfl
  | cons c line ih =>
    obtain ⟨hc, hrest⟩ := List.forall_mem_cons.1 h
    rw [List.cons_append, blockChars, hc, ih hrest]
    rfl

/-- A line stands behind its indentation. -/
theorem blockChars_indent {indent : Nat} {c : Char} (h : isBreak c = false) (text : List Char) :
    blockChars indent true (c :: text) = spaces indent ++ c :: blockChars indent false text := by
  rw [blockChars, h]
  rfl

theorem Lines.head (h : Lines text trailing) :
    ∃ c rest, text = c :: rest ∧ isBreak c = false := by
  cases h with
  | last hline _ => exact ⟨_, _, rfl, hline _ List.mem_cons_self⟩
  | more hline _ _ => exact ⟨_, _, rfl, hline _ List.mem_cons_self⟩

/-! ## Lines read back -/

/-- What a block may do with the breaks at its end so that the text keeps its own ones. A line without a
break of its own is ended by one that is dropped. -/
def Chomp.Keeps : Chomp → List Char → Prop
  | .strip, trailing => trailing = []
  | .clip, trailing => ∃ b, trailing = [b]
  | .keep, trailing => trailing ≠ []

/-- What is kept of the breaks at the end: the break of the last line and those after it. -/
def Chomp.kept (first further : List Char) : Chomp → List Char
  | .strip => []
  | .clip => first
  | .keep => first ++ further

/-- The break that ends the last line, if the text does not end it. -/
def lineEnd : List Char → List Char
  | [] => ['\n']
  | _ => []

variable {chomp : Chomp} {depth fuel n : Nat} {first further : List Char} {blank : Bool}

/-- **A line is read up to the next one**, with the breaks between them. -/
theorem readLines_line (chomp : Chomp) (fuel : Nat) (first further : List Char) (blank : Bool)
    {c b d : Char} (rest : List Char) (hcolumn : place.column = depth)
    (hline : ∀ e ∈ c :: line, isBreak e = false) (hprint : ∀ e ∈ b :: breaks, isPrintable e = true)
    (hbreaks : ∀ e ∈ b :: breaks, isBreak e = true) (hn : n ≤ depth) (hd : isBreak d = false)
    (hblank : n < depth → isBlank d = false) :
    ∃ (next : Place) (blank' : Bool), next.column = n ∧
      readLines .literal chomp depth (fuel + 1) place first further blank
          (c :: line ++ b :: breaks ++ (spaces n ++ d :: rest)) =
        (readLines .literal chomp depth fuel next [b] breaks blank' (d :: rest)).map
          (Lexeme.cons (first ++ further ++ c :: line)) := by
  obtain ⟨hprintb, hprintRest⟩ := List.forall_mem_cons.1 hprint
  obtain ⟨hb, hbreaksRest⟩ := List.forall_mem_cons.1 hbreaks
  have hstart : ((place.past (c :: line)).down b.utf8Size).column = 0 := rfl
  obtain ⟨most, next, hnext, hread⟩ :=
    readEmptyLines_written 0 rest hprintRest hbreaksRest hstart hn hd hblank
  refine ⟨next, (some c).any isBlank, hnext, ?_⟩
  have hpos : ∀ e ∈ c :: line, (!isBreak e) = true := fun e he => by rw [hline e he]; rfl
  have hneg : ¬ (!isBreak b) = true := by simp [hb]
  have htake : ((c :: line) ++ b :: (breaks ++ (spaces n ++ d :: rest))).takeWhile
      (fun e => !isBreak e) = c :: line := by
    rw [List.takeWhile_append_of_pos hpos,
      List.takeWhile_cons_of_neg (p := fun e => !isBreak e) hneg, List.append_nil]
  have hdrop : ((c :: line) ++ b :: (breaks ++ (spaces n ++ d :: rest))).dropWhile
      (fun e => !isBreak e) = b :: (breaks ++ (spaces n ++ d :: rest)) := by
    rw [List.dropWhile_append_of_pos hpos,
      List.dropWhile_cons_of_neg (p := fun e => !isBreak e) hneg]
  have hshape : c :: line ++ b :: breaks ++ (spaces n ++ d :: rest) =
      c :: line ++ b :: (breaks ++ (spaces n ++ d :: rest)) := by
    rw [List.append_assoc]
    rfl
  rw [hshape, readLines.eq_def]
  simp only [htake, hdrop, takeLineEnd, takeBreak?_printable hprintb hb, hread]
  simp [hcolumn, joinLines]

/-- Behind the last line, the breaks are chomped. -/
theorem readLines_end (hcolumn : place.column ≠ depth) :
    readLines .literal chomp depth (fuel + 1) place first further blank text =
      some ⟨chomp.kept first further, place, text⟩ := by
  rw [readLines.eq_def]
  cases chomp <;> simp [hcolumn, Chomp.kept]

/-- The breaks at the end are kept if they belong to the text. -/
theorem Chomp.kept_trailing {b : Char} (hkeeps : chomp.Keeps trailing)
    (hend : trailing ++ lineEnd trailing = b :: breaks) : chomp.kept [b] breaks = trailing := by
  cases chomp with
  | strip => exact Eq.symm hkeeps
  | clip =>
    obtain ⟨e, rfl⟩ := hkeeps
    obtain ⟨rfl, -⟩ := List.cons.inj hend
    rfl
  | keep =>
    obtain ⟨e, more, rfl⟩ := List.exists_cons_of_ne_nil hkeeps
    rw [lineEnd, List.append_nil] at hend
    · exact Eq.symm hend
    · exact List.cons_ne_nil e more

/-- The last line is written as it is, with the breaks after it. -/
theorem blockChars_last {c : Char} (hline : ∀ e ∈ c :: line, isBreak e = false)
    (hbreaks : ∀ e ∈ breaks, isBreak e = true) :
    blockChars depth false (c :: line ++ breaks) = c :: line ++ breaks := by
  rw [blockChars_line _ hline]
  cases breaks with
  | nil => rfl
  | cons b breaks =>
    have hrest := blockChars_break depth hbreaks false []
    rw [List.append_nil] at hrest
    rw [hrest, blockChars, List.append_nil]

/-- Between two lines stand the breaks and the indentation of the second one. -/
theorem blockChars_more {b c e : Char} (hline : ∀ d ∈ c :: line, isBreak d = false)
    (hbreaks : ∀ d ∈ b :: breaks, isBreak d = true) (he : isBreak e = false) (after : List Char) :
    blockChars depth false (c :: line ++ b :: breaks ++ e :: after) =
      c :: line ++ b :: breaks ++ (spaces depth ++ e :: blockChars depth false after) := by
  rw [List.append_assoc, blockChars_line _ hline, blockChars_break depth hbreaks, blockChars_indent he,
    List.append_assoc]

theorem blockChars_cons {c : Char} (hc : isBreak c = false) (text : List Char) :
    blockChars depth false (c :: text) = c :: blockChars depth false text :=
  blockChars_line [c] (List.forall_mem_singleton.2 hc) text

/-- A line is ended by the first break behind it, or by a line feed of its own. -/
theorem exists_lineEnd (hprint : ∀ e ∈ breaks, isPrintable e = true)
    (hbreaks : ∀ e ∈ breaks, isBreak e = true) :
    ∃ b more, breaks ++ lineEnd breaks = b :: more ∧ (∀ e ∈ b :: more, isPrintable e = true) ∧
      ∀ e ∈ b :: more, isBreak e = true := by
  cases breaks with
  | nil =>
    exact ⟨'\n', [], rfl, List.forall_mem_singleton.2 (by decide),
      List.forall_mem_singleton.2 (by decide)⟩
  | cons b breaks => exact ⟨b, breaks, by simp [lineEnd], hprint, hbreaks⟩

/-- **The lines of a block read back**, with the breaks in front of them. -/
theorem readLines_written (first further : List Char) (blank : Bool) {d : Char} (rest : List Char)
    (h : Lines text trailing)
    (hprint : ∀ e ∈ text, isPrintable e = true) (hkeeps : chomp.Keeps trailing)
    (hcolumn : place.column = depth) (hfuel : text.length < fuel) (hn : n < depth)
    (hd : isBreak d = false) (hblank : isBlank d = false) :
    ∃ last : Place, last.column = n ∧
      readLines .literal chomp depth fuel place first further blank
          (blockChars depth false text ++ lineEnd trailing ++ (spaces n ++ d :: rest)) =
        some ⟨first ++ further ++ text, last, d :: rest⟩ := by
  induction h generalizing fuel place first further blank with
  | @last c line breaks hline hbreaks =>
    obtain ⟨fuel, rfl⟩ : ∃ k, fuel = k + 2 := ⟨fuel - 2, by simp at hfuel; omega⟩
    obtain ⟨b, more, hend, hprintEnd, hbreakEnd⟩ :=
      exists_lineEnd (fun e he => hprint e (List.mem_append_right _ he)) hbreaks
    obtain ⟨next, blank', hnext, hread⟩ := readLines_line chomp (fuel + 1) first further blank rest
      hcolumn hline hprintEnd hbreakEnd (Nat.le_of_lt hn) hd (fun _ => hblank)
    refine ⟨next, hnext, ?_⟩
    rw [blockChars_last hline hbreaks, List.append_assoc (c :: line), hend, hread,
      readLines_end (by omega), Chomp.kept_trailing hkeeps hend]
    simp [Lexeme.cons, List.append_assoc]
  | @more c b line breaks text trailing hline hbreaks hrest ih =>
    obtain ⟨fuel, rfl⟩ : ∃ k, fuel = k + 1 := ⟨fuel - 1, by simp at hfuel; omega⟩
    obtain ⟨e, after, rfl, he⟩ := hrest.head
    have hprintBreaks : ∀ e ∈ b :: breaks, isPrintable e = true := fun e he =>
      hprint e (List.mem_append_left _ (List.mem_append_right _ he))
    obtain ⟨next, blank', hnext, hread⟩ := readLines_line chomp fuel first further blank
      (blockChars depth false after ++ lineEnd trailing ++ (spaces n ++ d :: rest)) hcolumn
      hline hprintBreaks hbreaks (Nat.le_refl depth) he (fun h => absurd h (Nat.lt_irrefl _))
    obtain ⟨last, hlast, hlines⟩ := @ih next fuel [b] breaks blank'
      (fun e he => hprint e (List.mem_append_right _ he)) hkeeps hnext
      (by simp at hfuel ⊢; omega)
    refine ⟨last, hlast, ?_⟩
    have hshape : blockChars depth false (c :: line ++ b :: breaks ++ e :: after) ++
        lineEnd trailing ++ (spaces n ++ d :: rest) = c :: line ++ b :: breaks ++ (spaces depth ++
          e :: (blockChars depth false after ++ lineEnd trailing ++ (spaces n ++ d :: rest))) := by
      rw [blockChars_more hline hbreaks he]
      simp only [List.append_assoc, List.cons_append]
    rw [blockChars_cons he, List.cons_append, List.cons_append] at hlines
    rw [hshape, hread, hlines]
    simp [Lexeme.cons, List.append_assoc]

theorem length_blockChars (indent : Nat) (afterBreak : Bool) (text : List Char) :
    text.length ≤ (blockChars indent afterBreak text).length := by
  induction text generalizing afterBreak with
  | nil => exact Nat.zero_le _
  | cons c text ih =>
    have hbreak := ih true
    have hline := ih false
    rw [blockChars]
    split
    · simpa using hbreak
    · simp only [List.length_append, List.length_cons]
      omega

/-! ## Headers -/

/-- The mark of what happens to the breaks at the end. -/
def Chomp.mark : Chomp → List Char
  | .strip => ['-']
  | .clip => []
  | .keep => ['+']

/-- The mark of the depth, if it is said. -/
def depthMark (said : Bool) : List Char := if said then ['2'] else []

/-- The last line ends with a character of its own, and the breaks after it. -/
theorem Lines.last_line (h : Lines text trailing) : (∀ d ∈ trailing, isBreak d = true) ∧
    ∃ front c, text = front ++ c :: trailing ∧ isBreak c = false := by
  induction h with
  | @last c line breaks hline hbreaks =>
    have hne : c :: line ≠ [] := List.cons_ne_nil c line
    refine ⟨hbreaks, (c :: line).dropLast, (c :: line).getLast hne, ?_,
      hline _ (List.getLast_mem hne)⟩
    rw [List.append_cons, List.dropLast_concat_getLast]
  | @more c b line breaks text trailing hline hbreaks hrest ih =>
    obtain ⟨htrailing, front, e, rfl, he⟩ := ih
    exact ⟨htrailing, c :: line ++ b :: breaks ++ front, e, by simp, he⟩

/-- **The header keeps the breaks at the end** and no others. -/
theorem blockMarks_written (h : Lines text trailing) (breaks : List Char) : ∃ chomp : Chomp,
    chomp.Keeps trailing ∧ blockMarks indentStep (breaks ++ text) =
      depthMark ((breaks ++ text).head?.any fun c => c = ' ' || isBreak c) ++ chomp.mark := by
  obtain ⟨htrailing, front, c, rfl, hc⟩ := h.last_line
  have hreverse : (breaks ++ (front ++ c :: trailing)).reverse =
      trailing.reverse ++ c :: (breaks ++ front).reverse := by simp
  have hends : ∀ d ∈ trailing.reverse, isBreak d = true := fun d hd =>
    htrailing d (List.mem_reverse.1 hd)
  unfold blockMarks depthMark
  rw [hreverse]
  match hback : trailing.reverse, hends with
  | [], _ =>
    refine ⟨.strip, List.reverse_eq_nil_iff.1 hback, ?_⟩
    simp only [List.nil_append, hc]
    rfl
  | [b], hends =>
    have hb : isBreak b = true := hends b List.mem_cons_self
    refine ⟨.clip, ⟨b, List.reverse_eq_iff.1 hback⟩, ?_⟩
    simp only [List.cons_append, List.nil_append, hb, hc]
    rfl
  | b :: b' :: more, hends =>
    have hb : isBreak b = true := hends b List.mem_cons_self
    have hb' : isBreak b' = true := hends b' (List.mem_cons_of_mem _ List.mem_cons_self)
    refine ⟨.keep, fun hnil => ?_, ?_⟩
    · rw [hnil] at hback
      cases hback
    · simp only [List.cons_append, hb, hb']
      rfl

/-- A text that is nothing but breaks keeps all of them. -/
theorem blockMarks_breaks {b : Char} (h : ∀ d ∈ b :: breaks, isBreak d = true) :
    blockMarks indentStep (b :: breaks) = depthMark true ++ Chomp.keep.mark := by
  have hends : ∀ d ∈ (b :: breaks).reverse, isBreak d = true := fun d hd =>
    h d (List.mem_reverse.1 hd)
  have hhead : (fun c => decide (c = ' ') || isBreak c) b = true := by
    simp [h b List.mem_cons_self]
  unfold blockMarks
  match hback : (b :: breaks).reverse, hends with
  | [], _ => simp at hback
  | [c], hends =>
    have hc : isBreak c = true := hends c List.mem_cons_self
    simp only [List.head?_cons, Option.any_some, hhead, hc]
    rfl
  | c :: c' :: more, hends =>
    have hc : isBreak c = true := hends c List.mem_cons_self
    have hc' : isBreak c' = true := hends c' (List.mem_cons_of_mem _ List.mem_cons_self)
    simp only [List.head?_cons, Option.any_some, hhead, hc, hc']
    rfl

/-- The marks of a header are read. -/
theorem readHeader?_written (said : Bool) (chomp : Chomp) (rest : List Char) :
    readHeader? (depthMark said ++ chomp.mark ++ '\n' :: rest) =
      some (⟨chomp, if said then some indentStep else none⟩,
        (depthMark said ++ chomp.mark).length) := by
  cases said <;> cases chomp <;> rfl

/-! ## Blocks -/

/-- Behind the header stand the empty lines in front of the first line, then the lines. -/
theorem readBlock_header (place : Place) (parent : Nat) (said : Bool) (chomp : Chomp) (rest : List Char) :
    ∃ start : Place, start.column = 0 ∧
      readBlock .literal (some parent) place (depthMark said ++ chomp.mark ++ '\n' :: rest) =
        (readEmptyLines (if said then some (parent + indentStep) else none) start 0 rest).bind
          fun (breaks, widest, next, rest) =>
            readLines .literal chomp
              ((if said then some (parent + indentStep) else none).getD
                (max widest (max (parent + 1) 1)))
              (rest.length + 1) next [] breaks false rest := by
  have hafter : skipComment (((depthMark said ++ chomp.mark ++ '\n' :: rest).drop
      (depthMark said ++ chomp.mark).length).dropWhile isBlank) = '\n' :: rest := by
    rw [List.drop_left]
    rfl
  refine ⟨(place.past ((depthMark said ++ chomp.mark ++ '\n' :: rest).take
    ((depthMark said ++ chomp.mark ++ '\n' :: rest).length - ('\n' :: rest).length))).down 1, rfl, ?_⟩
  have hbreak : isBreak '\n' = true := by decide
  unfold readBlock
  rw [readHeader?_written]
  simp only [bind, Option.bind_some, hafter, atLineEnd, hbreak, if_true, takeLineEnd]
  rw [takeBreak?_printable (by decide) hbreak]
  cases said <;> rfl

/-- The line behind the header is read up to the first character of the first line. If the depth is not
said, the line shows it. -/
theorem readEmptyLines_first (parent : Nat) {c : Char} {after : List Char} (rest : List Char) (hcolumn : place.column = 0)
    (hprint : ∀ e ∈ breaks ++ [c], isPrintable e = true) (hbreaks : ∀ e ∈ breaks, isBreak e = true)
    (hc : isBreak c = false) {said : Bool}
    (hsaid : said = ((breaks ++ c :: after).head?.any fun c => c = ' ' || isBreak c)) :
    ∃ (widest : Nat) (next : Place), next.column = parent + indentStep ∧
      readEmptyLines (if said then some (parent + indentStep) else none) place 0
          (breaks ++ (spaces (parent + indentStep) ++ c :: rest)) =
        some (breaks, widest, next, c :: rest) ∧
      (if said then some (parent + indentStep) else none).getD (max widest (max (parent + 1) 1)) =
        parent + indentStep := by
  cases said with
  | true =>
    obtain ⟨widest, next, hnext, hread⟩ := readEmptyLines_written 0 rest (n := parent + indentStep)
      (fun e he => hprint e (List.mem_append_left _ he)) hbreaks hcolumn
      (Nat.le_refl _) hc (fun h => absurd h (Nat.lt_irrefl _))
    exact ⟨widest, next, hnext, hread, rfl⟩
  | false =>
    -- the text begins with the first line, and that with a character that is no space
    cases breaks with
    | cons b breaks => simp [hbreaks b List.mem_cons_self] at hsaid
    | nil =>
      have hspace : c ≠ ' ' := by simpa [hc] using hsaid
      have hblank : isBlank c = true → ∃ d ∈ (none : Option Nat),
          d ≤ (place.right (parent + indentStep)).column := fun h =>
        absurd (eq_space_of_blank (hprint c List.mem_cons_self) h) hspace
      have hwide : (place.right (parent + indentStep)).column = parent + indentStep := by
        rw [Place.column_right, hcolumn, Nat.zero_add]
      have hread : readEmptyLines none place 0 (spaces (parent + indentStep) ++ c :: rest) =
          some ([], parent + indentStep, place.right (parent + indentStep), c :: rest) := by
        rw [readEmptyLines_spaces (by simp), readEmptyLines_line hc hblank, hwide,
          Nat.zero_max]
      refine ⟨parent + indentStep, _, hwide, hread, ?_⟩
      simp only [Bool.false_eq_true, if_false, Option.getD_none, indentStep]
      omega

/-- The last line is ended if the text does not end it. -/
theorem Lines.lineEnd_eq (h : Lines text trailing) (breaks : List Char) :
    (if (breaks ++ text).getLast?.any isBreak then [] else ['\n']) = lineEnd trailing := by
  obtain ⟨htrailing, front, c, rfl, hc⟩ := h.last_line
  cases trailing with
  | nil => simp [lineEnd, hc]
  | cons b trailing =>
    have hne : b :: trailing ≠ [] := List.cons_ne_nil b trailing
    have hlast : (breaks ++ (front ++ c :: b :: trailing)).getLast? =
        some ((b :: trailing).getLast hne) := by
      rw [List.append_cons front, ← List.append_assoc, List.getLast?_append_of_ne_nil _ hne,
        List.getLast?_eq_some_getLast hne]
    rw [hlast, Option.any_some, htrailing _ (List.getLast_mem hne)]
    rfl

/-- A block of nothing but breaks: all are read in front of the line behind it. -/
theorem readBlock_breaks {b d : Char} {rest : List Char}
    (hprint : ∀ e ∈ b :: breaks, isPrintable e = true) (hbreaks : ∀ e ∈ b :: breaks, isBreak e = true)
    (hn : n < parent + indentStep) (hd : isBreak d = false) (hblank : isBlank d = false) :
    ∃ last : Place, last.column = n ∧
      readBlock .literal (some parent) place (blockMarks indentStep (b :: breaks) ++ '\n' ::
          (blockChars (parent + indentStep) true (b :: breaks) ++
            (if (b :: breaks).getLast?.any isBreak then [] else ['\n']) ++ (spaces n ++ d :: rest))) =
        some ⟨b :: breaks, last, d :: rest⟩ := by
  obtain ⟨start, hstart, hblock⟩ := readBlock_header place parent true .keep
    (b :: breaks ++ (spaces n ++ d :: rest))
  obtain ⟨widest, last, hlast, hread⟩ := readEmptyLines_written 0 rest hprint hbreaks hstart
    (Nat.le_of_lt hn) hd (fun _ => hblank)
  refine ⟨last, hlast, ?_⟩
  have hwritten : blockChars (parent + indentStep) true (b :: breaks) = b :: breaks := by
    have hall := blockChars_breaks (parent + indentStep) hbreaks []
    rwa [List.append_nil, blockChars, List.append_nil] at hall
  have hend : (b :: breaks).getLast?.any isBreak = true := by
    have hne : b :: breaks ≠ [] := List.cons_ne_nil b breaks
    rw [List.getLast?_eq_some_getLast hne]
    exact hbreaks _ (List.getLast_mem hne)
  rw [blockMarks_breaks hbreaks, hwritten, if_pos hend, List.append_nil, hblock, if_pos rfl, hread,
    Option.bind_some]
  dsimp only
  rw [Option.getD_some, readLines_end (by omega)]
  rfl

/-- A block with lines: the empty ones in front of them, then the lines. -/
theorem readBlock_lines {d : Char} {rest : List Char} (hlines : Lines text trailing)
    (hprint : ∀ e ∈ breaks ++ text, isPrintable e = true) (hbreaks : ∀ e ∈ breaks, isBreak e = true)
    (hn : n < parent + indentStep) (hd : isBreak d = false) (hblank : isBlank d = false) :
    ∃ last : Place, last.column = n ∧
      readBlock .literal (some parent) place (blockMarks indentStep (breaks ++ text) ++ '\n' ::
          (blockChars (parent + indentStep) true (breaks ++ text) ++
            (if (breaks ++ text).getLast?.any isBreak then [] else ['\n']) ++ (spaces n ++ d :: rest))) =
        some ⟨breaks ++ text, last, d :: rest⟩ := by
  obtain ⟨c, after, rfl, hc⟩ := hlines.head
  obtain ⟨chomp, hkeeps, hmarks⟩ := blockMarks_written hlines breaks
  obtain ⟨start, hstart, hblock⟩ := readBlock_header place parent
    ((breaks ++ c :: after).head?.any fun c => c = ' ' || isBreak c) chomp
    (breaks ++ (spaces (parent + indentStep) ++ c :: (blockChars (parent + indentStep) false after ++
      lineEnd trailing ++ (spaces n ++ d :: rest))))
  have hprintFirst : ∀ e ∈ breaks ++ [c], isPrintable e = true := fun e he =>
    hprint e (by simp at he ⊢; tauto)
  obtain ⟨widest, next, hnext, hread, hdepth⟩ := readEmptyLines_first parent
    (blockChars (parent + indentStep) false after ++ lineEnd trailing ++
      (spaces n ++ d :: rest)) hstart hprintFirst hbreaks hc rfl
  have hfuel : (c :: after).length < (c :: (blockChars (parent + indentStep) false after ++
      lineEnd trailing ++ (spaces n ++ d :: rest))).length + 1 := by
    have hlength := length_blockChars (parent + indentStep) false after
    simp only [List.length_cons, List.length_append]
    omega
  obtain ⟨last, hlast, hread'⟩ := readLines_written [] breaks false rest hlines
    (fun e he => hprint e (List.mem_append_right _ he)) hkeeps hnext hfuel hn hd hblank
  refine ⟨last, hlast, ?_⟩
  have hshape : blockChars (parent + indentStep) true (breaks ++ c :: after) ++
      lineEnd trailing ++ (spaces n ++ d :: rest) =
        breaks ++ (spaces (parent + indentStep) ++ c :: (blockChars (parent + indentStep) false after ++
          lineEnd trailing ++ (spaces n ++ d :: rest))) := by
    rw [blockChars_breaks _ hbreaks, blockChars_indent hc]
    simp only [List.append_assoc, List.cons_append]
  rw [blockChars_cons hc, List.cons_append, List.cons_append, List.nil_append] at hread'
  rw [hmarks, hlines.lineEnd_eq, hshape, hblock, hread, Option.bind_some]
  dsimp only
  rw [hdepth, hread']

/-- **A block reads back**, up to the line behind it. -/
theorem readBlock_written {d : Char} {rest : List Char} (hne : text ≠ [])
    (hprint : ∀ e ∈ text, isPrintable e = true) (hn : n ≤ parent) (hd : isBreak d = false)
    (hblank : isBlank d = false) :
    ∃ last : Place, last.column = n ∧
      readBlock .literal (some parent) place (blockMarks indentStep text ++ '\n' ::
          (blockChars (parent + indentStep) true text ++
            (if text.getLast?.any isBreak then [] else ['\n']) ++ (spaces n ++ d :: rest))) =
        some ⟨text, last, d :: rest⟩ := by
  have hshallow : n < parent + indentStep := by
    show n < parent + 2
    omega
  obtain ⟨breaks, text, rfl, hbreaks, hrest⟩ := exists_lines text
  rcases hrest with rfl | ⟨trailing, hlines⟩
  · rw [List.append_nil] at hne hprint ⊢
    obtain ⟨b, more, rfl⟩ := List.exists_cons_of_ne_nil hne
    exact readBlock_breaks hprint hbreaks hshallow hd hblank
  · exact readBlock_lines hlines hprint hbreaks hshallow hd hblank

end CallIndex.Yaml
