import CallIndex.Json.Codec
import CallIndex.Proofs.JsonScalar
import Mathlib.Data.List.DropRight
import Mathlib.Data.List.Forall2

/-!
# Texts of a JSON value

A value may be written with blanks between its tokens. Both writers write such texts, and the reader of
values reads each of them as the value.

* `Written`: a text of a value, up to its last character. `Separated`: parts between two brackets.
* `Value.Narrow`: a value whose numbers are whole and have 64 bits. `Value.depth`: how deep it is nested.
* `Value.Narrow.compact`, `Value.Narrow.pretty`: what the two writers write is a text of the value.
* `ReadsAs`: a reader makes the same of every text of a value.
* `readItems_separated`, `readMembers_separated`: the parts of a list and of an object, one after the
  other.
* `readValue_written`: **every text of a value reads back as it**, if it is not nested too deep.
-/

namespace CallIndex.Json

/-! ## Texts -/

/-- Nothing but blanks. -/
def Blank (text : List Char) : Prop := ∀ c ∈ text, isSpace c = true

/-- A comma before each part but the first. -/
def comma (first : Bool) : List Char := if first then [] else [',']

/-- The parts between two brackets, each with a text of its own. Blanks may stand before each part, and
before the closing bracket. -/
inductive Separated {α : Type} (Part : α → List Char → Prop) : Bool → List α → List Char → Prop where
  | nil {first : Bool} {blank : List Char} (hb : Blank blank) : Separated Part first [] blank
  | cons {first : Bool} {blank text rest : List Char} {a : α} {as : List α} (hb : Blank blank)
      (h : Part a text) (hrest : Separated Part false as rest) :
      Separated Part first (a :: as) (comma first ++ (blank ++ (text ++ rest)))

mutual

/-- A text of a value. Its numbers are whole ones. -/
inductive Written : Value → List Char → Prop where
  | null : Written .null ['n', 'u', 'l', 'l']
  | bool (b : Bool) : Written (.bool b)
      (if b then ['t', 'r', 'u', 'e'] else ['f', 'a', 'l', 's', 'e'])
  | whole (n : Int) : Written (.whole n) (numberChars (.whole n))
  | string (s : String) : Written (.string s) (stringChars s)
  | array {items : List Value} {text : List Char} (h : Separated Written true items text) :
      Written (.array items) ('[' :: (text ++ [']']))
  | object {members : List (String × Value)} {text : List Char}
      (h : Separated WrittenMember true members text) :
      Written (.object members) ('{' :: (text ++ ['}']))

/-- A text of a member: its name, a colon, and its value behind blanks. -/
inductive WrittenMember : String × Value → List Char → Prop where
  | intro {key : String} {v : Value} {blank text : List Char} (hb : Blank blank)
      (h : Written v text) : WrittenMember (key, v) (stringChars key ++ ':' :: (blank ++ text))

end

namespace Value

/-- A value whose numbers are whole and have 64 bits with a sign. -/
inductive Narrow : Value → Prop where
  | null : Narrow .null
  | bool (b : Bool) : Narrow (.bool b)
  | whole {n : Int} (h : Width.signed64.holds n = true) : Narrow (.whole n)
  | string (s : String) : Narrow (.string s)
  | array {items : List Value} (h : ∀ v ∈ items, Narrow v) : Narrow (.array items)
  | object {members : List (String × Value)} (h : ∀ m ∈ members, Narrow m.2) :
      Narrow (.object members)

@[simp]
theorem narrow_string (s : String) : Narrow (.string s) := .string s

@[simp]
theorem narrow_whole {n : Int} : Narrow (.whole n) ↔ Width.signed64.holds n = true :=
  ⟨fun | .whole h => h, .whole⟩

@[simp]
theorem narrow_array {items : List Value} : Narrow (.array items) ↔ ∀ v ∈ items, Narrow v :=
  ⟨fun | .array h => h, .array⟩

@[simp]
theorem narrow_object {members : List (String × Value)} :
    Narrow (.object members) ↔ ∀ m ∈ members, Narrow m.2 :=
  ⟨fun | .object h => h, .object⟩

mutual

/-- How many lists and objects are around the innermost part of a value. -/
def depth : Value → Nat
  | array items => itemsDepth items + 1
  | object members => membersDepth members + 1
  | _ => 0

def itemsDepth : List Value → Nat
  | [] => 0
  | v :: rest => max v.depth (itemsDepth rest)

def membersDepth : List (String × Value) → Nat
  | [] => 0
  | (_, v) :: rest => max v.depth (membersDepth rest)

end

theorem depth_array_le {items : List Value} {d : Nat} :
    (array items).depth ≤ d + 1 ↔ ∀ v ∈ items, v.depth ≤ d := by
  rw [depth, Nat.add_le_add_iff_right]
  induction items with
  | nil => simp [itemsDepth]
  | cons v items ih => rw [itemsDepth, Nat.max_le, List.forall_mem_cons, ih]

theorem depth_object_le {members : List (String × Value)} {d : Nat} :
    (object members).depth ≤ d + 1 ↔ ∀ m ∈ members, m.2.depth ≤ d := by
  rw [depth, Nat.add_le_add_iff_right]
  induction members with
  | nil => simp [membersDepth]
  | cons m members ih =>
    obtain ⟨key, v⟩ := m
    rw [membersDepth, Nat.max_le, List.forall_mem_cons, ih]

/-! ## What the writers write -/

theorem blank_nil : Blank [] := fun _ h => nomatch h

theorem blank_newLine (level : Nat) : Blank (newLine level) := by
  intro c hc
  rcases List.mem_cons.1 hc with rfl | hc
  · rfl
  · rw [(List.mem_replicate.1 hc).2]
    rfl

theorem blank_space : Blank [' '] := by
  intro c hc
  rw [List.mem_singleton.1 hc]
  rfl

theorem separated_compactItems {items : List Value}
    (h : ∀ v ∈ items, Written v v.compactChars) (first : Bool) :
    Separated Written first items (compactItems first items) := by
  induction items generalizing first with
  | nil => exact .nil blank_nil
  | cons v items ih =>
    obtain ⟨hv, hrest⟩ := List.forall_mem_cons.1 h
    rw [compactItems, List.append_assoc]
    exact .cons blank_nil hv (ih hrest false)

theorem separated_compactMembers {members : List (String × Value)}
    (h : ∀ m ∈ members, Written m.2 m.2.compactChars) (first : Bool) :
    Separated WrittenMember first members (compactMembers first members) := by
  induction members generalizing first with
  | nil => exact .nil blank_nil
  | cons m members ih =>
    obtain ⟨hm, hrest⟩ := List.forall_mem_cons.1 h
    obtain ⟨key, v⟩ := m
    have hpart : Separated WrittenMember first ((key, v) :: members) _ :=
      .cons blank_nil (.intro blank_nil hm) (ih hrest false)
    rw [compactMembers]
    simpa [comma] using hpart

/-- **The text without blanks.** -/
theorem Narrow.compact {v : Value} : v.Narrow → Written v v.compactChars
  | .null => .null
  | .bool true => .bool true
  | .bool false => .bool false
  | .whole _ => .whole _
  | .string s => .string s
  | .array h => by
    rw [compactChars]
    exact .array (separated_compactItems (fun v hv => (h v hv).compact) true)
  | .object h => by
    rw [compactChars]
    exact .object (separated_compactMembers (fun m hm => (h m hm).compact) true)

theorem separated_prettyItems {items : List Value} {level : Nat} {blank : List Char}
    (h : ∀ v ∈ items, Written v (v.prettyChars level)) (hb : Blank blank) :
    Separated Written false items (prettyItems level items ++ blank) := by
  induction items with
  | nil => exact .nil hb
  | cons v items ih =>
    obtain ⟨hv, hrest⟩ := List.forall_mem_cons.1 h
    have hpart : Separated Written false (v :: items) _ :=
      .cons (blank_newLine level) hv (ih hrest)
    rw [prettyItems]
    simpa [comma] using hpart

theorem separated_prettyMembers {members : List (String × Value)} {level : Nat} {blank : List Char}
    (h : ∀ m ∈ members, Written m.2 (m.2.prettyChars level)) (hb : Blank blank) :
    Separated WrittenMember false members (prettyMembers level members ++ blank) := by
  induction members with
  | nil => exact .nil hb
  | cons m members ih =>
    obtain ⟨hm, hrest⟩ := List.forall_mem_cons.1 h
    obtain ⟨key, v⟩ := m
    have hpart : Separated WrittenMember false ((key, v) :: members) _ :=
      .cons (blank_newLine level) (.intro blank_space hm) (ih hrest)
    rw [prettyMembers]
    simpa [comma] using hpart

/-- **The text over several lines**, whatever its level. -/
theorem Narrow.pretty {v : Value} : v.Narrow → ∀ level, Written v (v.prettyChars level)
  | .null, _ => Narrow.null.compact
  | .bool b, _ => (Narrow.bool b).compact
  | .whole h, _ => (Narrow.whole h).compact
  | .string s, _ => (Narrow.string s).compact
  | @Narrow.array [] _, level => by
    rw [prettyChars]
    exact .array (.nil blank_nil)
  | @Narrow.array (v :: items) h, level => by
    obtain ⟨hv, hitems⟩ : Written v (v.prettyChars (level + 1)) ∧
        ∀ w ∈ items, Written w (w.prettyChars (level + 1)) :=
      ⟨(h v List.mem_cons_self).pretty _, fun w hw => (h w (List.mem_cons_of_mem _ hw)).pretty _⟩
    have hparts : Separated Written true (v :: items) _ :=
      .cons (blank_newLine (level + 1)) hv (separated_prettyItems hitems (blank_newLine level))
    rw [prettyChars]
    simpa [comma] using Written.array hparts
  | @Narrow.object [] _, level => by
    rw [prettyChars]
    exact .object (.nil blank_nil)
  | @Narrow.object ((key, v) :: members) h, level => by
    obtain ⟨hv, hmembers⟩ : Written v (v.prettyChars (level + 1)) ∧
        ∀ m ∈ members, Written m.2 (m.2.prettyChars (level + 1)) :=
      ⟨(h (key, v) List.mem_cons_self).pretty _,
        fun m hm => (h m (List.mem_cons_of_mem _ hm)).pretty _⟩
    have hparts : Separated WrittenMember true ((key, v) :: members) _ :=
      .cons (blank_newLine (level + 1)) (.intro blank_space hv)
        (separated_prettyMembers hmembers (blank_newLine level))
    rw [prettyChars]
    simpa [comma] using Written.object hparts

end Value

/-! ## What follows and what starts a text -/

theorem ends_cons {c : Char} (h : c = ',' ∨ c = ']' ∨ c = '}' ∨ isSpace c = true)
    (text : List Char) : Ends (c :: text) := by
  rintro d t e
  cases e
  simp only [isSpace, Bool.or_eq_true, beq_iff_eq] at h
  rcases h with rfl | rfl | rfl | ((rfl | rfl) | rfl) | rfl <;> decide

/-- A part is followed by a comma, a blank or the closing bracket. -/
theorem ends_separated {α : Type} {Part : α → List Char → Prop} {as : List α} {text : List Char}
    (h : Separated Part false as text) {close : Char} (hclose : close = ']' ∨ close = '}')
    (rest : List Char) : Ends (text ++ close :: rest) := by
  cases h with
  | nil hb =>
    cases text with
    | nil => exact ends_cons (Or.inr (hclose.imp_right Or.inl)) rest
    | cons c t => exact ends_cons (by simp [hb c List.mem_cons_self]) _
  | cons => exact ends_cons (Or.inl rfl) _

/-- A value starts with no blank and no closing bracket. Only null starts with its letter, and only a
list or an object with an opening bracket. -/
theorem Written.starts {v : Value} {text : List Char} (h : Written v text) :
    ∃ c t, text = c :: t ∧ isSpace c = false ∧ c ≠ ']' ∧ (v ≠ .null → c ≠ 'n') ∧
      (v.depth = 0 → c ≠ '[' ∧ c ≠ '{') := by
  cases h with
  | null => exact ⟨'n', _, rfl, by decide, by decide, by simp, fun _ => by decide⟩
  | bool b =>
    cases b <;> exact ⟨_, _, rfl, by decide, by decide, fun _ => by decide, fun _ => by decide⟩
  | string => exact ⟨'"', _, rfl, by decide, by decide, fun _ => by decide, fun _ => by decide⟩
  | array | object =>
    exact ⟨_, _, rfl, by decide, by decide, fun _ => by decide, by simp [Value.depth]⟩
  | whole n =>
    obtain ⟨c, t, hc, rfl | hdigit⟩ := numberChars_cons n
    · exact ⟨'-', t, hc, by decide, by decide, fun _ => by decide, fun _ => by decide⟩
    · have hne {d : Char} : isDigit d = false → c ≠ d := ne_of_isDigit hdigit
      exact ⟨c, t, hc, isSpace_of_isDigit hdigit, hne (by decide), fun _ => hne (by decide),
        fun _ => ⟨hne (by decide), hne (by decide)⟩⟩

theorem Written.length_pos {v : Value} {text : List Char} (h : Written v text) :
    0 < text.length := by
  obtain ⟨c, t, rfl, -⟩ := h.starts
  exact Nat.succ_pos _

theorem WrittenMember.length_pos {m : String × Value} {text : List Char}
    (h : WrittenMember m text) : 0 < text.length := by
  cases h
  rw [List.length_append, List.length_cons]
  omega

/-! ## Reading -/

/-- A reader makes the same of every text of a value, whatever ends it. -/
def ReadsAs {α : Type} (reader : Reader α) (v : Value) (a : α) : Prop :=
  ∀ text, Written v text → Reads reader text a

/-- A reader skips blanks first. -/
def Skips {α : Type} (reader : Reader α) : Prop :=
  ∀ text, reader (skipSpace text) = reader text

theorem skipSpace_blank {blank : List Char} (hb : Blank blank) (text : List Char) :
    skipSpace (blank ++ text) = skipSpace text :=
  List.dropWhile_append_of_pos hb

theorem skipSpace_skipSpace (text : List Char) : skipSpace (skipSpace text) = skipSpace text := by
  unfold skipSpace
  exact List.dropWhile_idempotent _ text

theorem Skips.blank {α : Type} {reader : Reader α} (h : Skips reader) {blank : List Char}
    (hb : Blank blank) (text : List Char) : reader (blank ++ text) = reader text := by
  rw [← h, skipSpace_blank hb, h]

/-- Reading goes on at the next item, which starts with no blank and no closing bracket. -/
theorem nextItem_cons (first : Bool) {blank : List Char} (hb : Blank blank) {c : Char}
    (hspace : isSpace c = false) (hc : c ≠ ']') (rest : List Char) :
    nextItem first (comma first ++ (blank ++ c :: rest)) = .ok (some (c :: rest)) := by
  have hskip : skipSpace (blank ++ c :: rest) = c :: rest := by
    rw [skipSpace_blank hb, skipSpace_cons hspace]
  cases first
  · show nextItem false (',' :: (blank ++ c :: rest)) = _
    unfold nextItem
    rw [skipSpace_cons (by decide)]
    simp [hskip, hc]
  · show nextItem true (blank ++ c :: rest) = _
    unfold nextItem
    rw [hskip]
    simp [hc]

theorem nextItem_written (first : Bool) {blank : List Char} (hb : Blank blank) {v : Value}
    {text : List Char} (h : Written v text) (rest : List Char) :
    nextItem first (comma first ++ (blank ++ (text ++ rest))) = .ok (some (text ++ rest)) := by
  obtain ⟨c, t, rfl, hspace, hc, -⟩ := h.starts
  exact nextItem_cons first hb hspace hc (t ++ rest)

/-- There is no item before the closing bracket. -/
theorem nextItem_close (first : Bool) {blank : List Char} (hb : Blank blank) (rest : List Char) :
    nextItem first (blank ++ ']' :: rest) = .ok none := by
  unfold nextItem
  rw [skipSpace_blank hb, skipSpace_cons (by decide)]
  rfl

theorem endArray_close {blank : List Char} (hb : Blank blank) (rest : List Char) :
    endArray (blank ++ ']' :: rest) = .ok rest := by
  unfold endArray
  rw [skipSpace_blank hb, skipSpace_cons (by decide)]
  rfl

/-- **The items of a list**, one after the other. -/
theorem readItems_separated {β : Type} {item : Reader β} {vs : List Value} {bs : List β}
    {first : Bool} {text : List Char} (htext : Separated Written first vs text)
    (hitems : List.Forall₂ (ReadsAs item) vs bs) (fuel : Nat) (hfuel : text.length < fuel)
    (rest : List Char) :
    ∃ blank, Blank blank ∧
      readItems item fuel first (text ++ ']' :: rest) = .ok (bs, blank ++ ']' :: rest) := by
  induction htext generalizing bs fuel with
  | @nil first blank hb =>
    obtain ⟨fuel, rfl⟩ : ∃ k, fuel = k + 1 := ⟨fuel - 1, by omega⟩
    cases hitems
    exact ⟨blank, hb, by rw [readItems, nextItem_close first hb]; rfl⟩
  | @cons first blank text others v vs hb hv hothers ih =>
    obtain ⟨fuel, rfl⟩ : ∃ k, fuel = k + 1 := ⟨fuel - 1, by omega⟩
    cases hitems with
    | @cons _ b _ bs hitem hitems =>
      -- each item takes a character
      have hlength : others.length < fuel := by
        have hpos := hv.length_pos
        simp only [List.length_append] at hfuel
        omega
      obtain ⟨blank', hb', hread⟩ := ih hitems fuel hlength
      have hnext := nextItem_written first hb hv (others ++ ']' :: rest)
      have hitem := hitem _ hv _ (ends_separated hothers (Or.inl rfl) rest)
      refine ⟨blank', hb', ?_⟩
      simp only [List.append_assoc]
      rw [readItems, hnext]
      simp only [bind, Except.bind]
      rw [hitem]
      simp only
      rw [hread]

/-- **A list**, after its opening bracket. -/
theorem readArray_separated {β : Type} {item : Reader β} {vs : List Value} {bs : List β}
    {text : List Char} (htext : Separated Written true vs text)
    (hitems : List.Forall₂ (ReadsAs item) vs bs) (rest : List Char) :
    readArray item (text ++ ']' :: rest) = .ok (bs, rest) := by
  obtain ⟨blank, hb, hread⟩ := readItems_separated htext hitems
    ((text ++ ']' :: rest).length + 1) (by rw [List.length_append]; omega) rest
  unfold readArray
  rw [hread]
  simp only [bind, Except.bind, endArray_close hb]

/-- Reading goes on at the next name, behind its opening quote. -/
theorem nextKey_cons (first : Bool) {blank : List Char} (hb : Blank blank) (text : List Char) :
    nextKey first (comma first ++ (blank ++ '"' :: text)) = (readString text).map some := by
  have hskip : skipSpace (blank ++ '"' :: text) = '"' :: text := by
    rw [skipSpace_blank hb, skipSpace_cons (by decide)]
  cases first
  · show nextKey false (',' :: (blank ++ '"' :: text)) = _
    unfold nextKey
    rw [skipSpace_cons (by decide)]
    simp [hskip]
  · show nextKey true (blank ++ '"' :: text) = _
    unfold nextKey
    rw [hskip]
    simp

theorem nextKey_written (first : Bool) {blank : List Char} (hb : Blank blank) (key : String)
    (rest : List Char) :
    nextKey first (comma first ++ (blank ++ (stringChars key ++ rest))) = .ok (some (key, rest)) := by
  obtain ⟨text, htext, hread⟩ := readString_written key rest
  rw [htext, nextKey_cons first hb, hread]
  rfl

/-- There is no name before the closing brace. -/
theorem nextKey_close (first : Bool) {blank : List Char} (hb : Blank blank) (rest : List Char) :
    nextKey first (blank ++ '}' :: rest) = .ok none := by
  unfold nextKey
  rw [skipSpace_blank hb, skipSpace_cons (by decide)]
  rfl

theorem endObject_close {blank : List Char} (hb : Blank blank) (rest : List Char) :
    endObject (blank ++ '}' :: rest) = .ok rest := by
  unfold endObject
  rw [skipSpace_blank hb, skipSpace_cons (by decide)]
  rfl

/-- **A member**: its name is found, and behind the colon its value. -/
theorem WrittenMember.reads {β : Type} {value : Reader β} {m : String × Value} {a : β}
    {blank text : List Char} (h : WrittenMember m text) (hb : Blank blank) (hskip : Skips value)
    (hvalue : ReadsAs value m.2 a) (first : Bool) {rest : List Char} (hrest : Ends rest) :
    ∃ text', nextKey first (comma first ++ (blank ++ (text ++ rest))) =
        .ok (some (m.1, ':' :: text')) ∧ value text' = .ok (a, rest) := by
  cases h with
  | @intro key v blank' text hb' hv =>
    refine ⟨blank' ++ (text ++ rest), ?_, ?_⟩
    · rw [List.append_assoc, List.cons_append, List.append_assoc]
      exact nextKey_written first hb key _
    · rw [hskip.blank hb']
      exact hvalue text hv rest hrest

/-- **The members of an object**, one after the other. -/
theorem readMembers_separated {value : Reader Value} {members : List (String × Value)} {first : Bool}
    {text : List Char} (htext : Separated WrittenMember first members text) (hskip : Skips value)
    (hmembers : ∀ m ∈ members, ReadsAs value m.2 m.2) (fuel : Nat) (hfuel : text.length < fuel)
    (rest : List Char) :
    ∃ blank, Blank blank ∧
      readMembers value fuel first (text ++ '}' :: rest) = .ok (members, blank ++ '}' :: rest) := by
  induction htext generalizing fuel with
  | @nil first blank hb =>
    obtain ⟨fuel, rfl⟩ : ∃ k, fuel = k + 1 := ⟨fuel - 1, by omega⟩
    exact ⟨blank, hb, by rw [readMembers, nextKey_close first hb]; rfl⟩
  | @cons first blank text others m members hb hm hothers ih =>
    obtain ⟨fuel, rfl⟩ : ∃ k, fuel = k + 1 := ⟨fuel - 1, by omega⟩
    obtain ⟨hmember, hrest⟩ := List.forall_mem_cons.1 hmembers
    have hlength : others.length < fuel := by
      have hpos := hm.length_pos
      simp only [List.length_append] at hfuel
      omega
    obtain ⟨blank', hb', hread⟩ := ih hrest fuel hlength
    obtain ⟨text', hkey, hvalue⟩ := hm.reads hb hskip hmember first
      (ends_separated hothers (Or.inr rfl) rest)
    have hcolon : readColon (':' :: text') = .ok text' := rfl
    refine ⟨blank', hb', ?_⟩
    simp only [List.append_assoc]
    rw [readMembers, hkey]
    simp only [bind, Except.bind, hcolon]
    rw [hvalue]
    simp only
    rw [hread]

/-- **An object**, after its opening brace. -/
theorem readObject_separated {value : Reader Value} {members : List (String × Value)}
    {text : List Char} (htext : Separated WrittenMember true members text) (hskip : Skips value)
    (hmembers : ∀ m ∈ members, ReadsAs value m.2 m.2) (rest : List Char) :
    readObject value (text ++ '}' :: rest) = .ok (members, rest) := by
  obtain ⟨blank, hb, hread⟩ := readMembers_separated htext hskip hmembers
    ((text ++ '}' :: rest).length + 1) (by rw [List.length_append]; omega) rest
  unfold readObject
  rw [hread]
  simp only [bind, Except.bind, endObject_close hb]

/-! ## Values -/

theorem readValue_skips (d : Nat) : Skips (readValue d) := by
  intro text
  cases d <;> rw [readValue, readValue, skipSpace_skipSpace]

/-- A value that is neither a list nor an object. -/
theorem readScalar_reads {v : Value} {text : List Char} (hv : v.Narrow) (h : Written v text)
    (hflat : v.depth = 0) : Reads readScalar text v := by
  intro rest hrest
  cases h with
  | null => rfl
  | bool b => cases b <;> rfl
  | whole n =>
    rcases readNumber_whole (Width.natAbs_le (Value.narrow_whole.1 hv)) with
      ⟨t, hc, hread⟩ | ⟨c, t, hc, hdigit, hread⟩
    · rw [hc, List.cons_append]
      unfold readScalar
      simp [hread rest hrest, Except.map]
    · have hne {d : Char} : isDigit d = false → c ≠ d := ne_of_isDigit hdigit
      rw [hc, List.cons_append]
      unfold readScalar
      simp [hread rest hrest, Except.map, hdigit, hne (d := 'n') (by decide),
        hne (d := 't') (by decide), hne (d := 'f') (by decide), hne (d := '-') (by decide)]
  | string s =>
    obtain ⟨t, ht, hread⟩ := readString_written s rest
    rw [ht]
    unfold readScalar
    simp [hread, Except.map, show isDigit '"' = false by decide]
  | array | object => simp [Value.depth] at hflat

theorem readValue_flat (d : Nat) {v : Value} (hv : v.Narrow) (hflat : v.depth = 0) :
    ReadsAs (readValue d) v v := by
  intro text h rest hrest
  obtain ⟨c, t, rfl, hspace, -, -, hopen⟩ := h.starts
  obtain ⟨hbracket, hbrace⟩ := hopen hflat
  have hread := readScalar_reads hv h hflat rest hrest
  rw [List.cons_append] at hread ⊢
  cases d <;> rw [readValue, skipSpace_cons hspace] <;> simp only [if_neg hbracket, if_neg hbrace] <;>
    exact hread

/-- **Every text of a value reads back as it**, if the value is not nested too deep. -/
theorem readValue_written {d : Nat} {v : Value} (hv : v.Narrow) (hd : v.depth ≤ d) :
    ReadsAs (readValue d) v v := by
  induction d generalizing v with
  | zero => exact readValue_flat 0 hv (Nat.le_zero.1 hd)
  | succ d ih =>
    cases v with
    | null | bool | number | string => exact readValue_flat (d + 1) hv rfl
    | array items =>
      have hitems : List.Forall₂ (ReadsAs (readValue d)) items items :=
        List.forall₂_same.2 fun w hw =>
          ih (Value.narrow_array.1 hv w hw) (Value.depth_array_le.1 hd w hw)
      intro text h rest _
      cases h with
      | array h =>
        rw [List.cons_append, List.append_assoc, readValue, skipSpace_cons (by decide)]
        simp only [if_true]
        rw [List.singleton_append, readArray_separated h hitems]
        rfl
    | object members =>
      have hmembers : ∀ m ∈ members, ReadsAs (readValue d) m.2 m.2 := fun m hm =>
        ih (Value.narrow_object.1 hv m hm) (Value.depth_object_le.1 hd m hm)
      intro text h rest _
      cases h with
      | object h =>
        rw [List.cons_append, List.append_assoc, readValue, skipSpace_cons (by decide)]
        simp only [if_neg (show ¬ '{' = '[' by decide), if_true]
        rw [List.singleton_append, readObject_separated h (readValue_skips d) hmembers]
        rfl

/-- A whole text of a value, with nothing left. -/
theorem Written.readValue {v : Value} {text : List Char} (h : Written v text) (hv : v.Narrow)
    (hd : v.depth ≤ maxDepth) : readValue maxDepth text = .ok (v, []) := by
  have hread := readValue_written hv hd text h [] ends_nil
  rwa [List.append_nil] at hread

end CallIndex.Json
