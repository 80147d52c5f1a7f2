import CallIndex.Proofs.JsonRoundTrip
import CallIndex.Proofs.JsonText
import CallIndex.Proofs.RecordSpelling

/-!
# Spellings of a batch

A batch, its methods and its calls may each be written as an object or as a list, with the field names of
either case, and with what may be left out. All these texts mean the same batch.

* `Batch.WrittenAs`, `MethodInput.WrittenAs`, `CallInput.WrittenAs`: the values that write a batch.
* `Batch.ofValue?_written`, `Batch.listOfValue?_written`: they are taken as the batch.
* `Batch.one_or_list`: no value is both one batch and a list of batches.
* `Batch.WritesTwice`: some object writes a field twice. `Batch.twice_refused`: then there is no batch.
* `Batch.parse_text`: a text is parsed as what its value stands for.
* `Batch.parse_spelled`: **all spellings of a batch are parsed as it**.
-/

namespace CallIndex

open Json

/-! ## The values that write a batch -/

/-- The text `s`. -/
def IsText (s : String) (v : Value) : Prop := v = .string s

/-- A line number, or null for none. -/
def IsLine (line : Option UInt32) (v : Value) : Prop :=
  v = match line with
    | none => .null
    | some n => .whole n.toNat

/-- A list of values that write the items one by one. -/
def IsList {α : Type} (Item : α → Value → Prop) (as : List α) (v : Value) : Prop :=
  ∃ items, v = .array items ∧ List.Forall₂ Item as items

def MethodInput.slots (m : MethodInput) : List Slot := [
  ⟨"signature", "Signature", IsText m.signature, False⟩,
  ⟨"body", "Body", IsText m.body, m.body = ""⟩,
  ⟨"start_line", "StartLine", IsLine m.startLine, m.startLine = none⟩,
  ⟨"end_line", "EndLine", IsLine m.endLine, m.endLine = none⟩]

/-- The values that write a method. -/
def MethodInput.WrittenAs (m : MethodInput) : Value → Prop := Record m.slots

def CallInput.slots (c : CallInput) : List Slot := [
  ⟨"caller", "Caller", IsText c.caller, False⟩,
  ⟨"callee", "Callee", IsText c.callee, False⟩]

/-- The values that write a call. -/
def CallInput.WrittenAs (c : CallInput) : Value → Prop := Record c.slots

def Batch.slots (b : Batch) : List Slot := [
  ⟨"project", "Project", IsText b.project, False⟩,
  ⟨"document", "Document", IsText b.document, False⟩,
  ⟨"classes", "Classes", IsList IsText b.classes, b.classes = []⟩,
  ⟨"methods", "Methods", IsList MethodInput.WrittenAs b.methods, b.methods = []⟩,
  ⟨"calls", "Calls", IsList CallInput.WrittenAs b.calls, b.calls = []⟩]

/-- The values that write a batch. -/
def Batch.WrittenAs (b : Batch) : Value → Prop := Record b.slots

/-! ## What they are fitted to -/

/-- A text is fitted to itself. -/
theorem fit?_text (s : String) (v : Value) (h : IsText s v) : Shape.string.fit? v = some (.string s) := by
  rw [h, Shape.fit?]

/-- So is a line number. -/
theorem fit?_line (line : Option UInt32) (v : Value) (h : IsLine line v) :
    lineShape.fit? v = some (encode line) := by
  have hv : v = encode line := by
    rw [h]
    cases line <;> rfl
  rw [hv]
  exact (forms_line line).fit?

/-- A list is fitted item by item. -/
theorem fit?_list {α : Type} {Item : α → Value → Prop} {item : Shape} {full : α → Value}
    (hitem : ∀ a v, Item a v → item.fit? v = some (full a)) {as : List α} {v : Value}
    (h : IsList Item as v) : (Shape.list item).fit? v = some (.array (as.map full)) := by
  obtain ⟨items, rfl, hitems⟩ := h
  have hmap : items.mapM item.fit? = some (as.map full) :=
    mapM_eq_some_iff.2 (List.forall₂_map_right_iff.2 (hitems.flip.imp fun v a => hitem a v))
  rw [Shape.fit?, hmap]
  rfl

/-- A field has the two names that it is written with. -/
theorem fits_field {s : Slot} {absent : Option Value} {fit : Value → Option Value} {w : Value}
    (hfit : ∀ v, s.Writes v → fit v = some w) (habsent : s.MayOmit → absent = some w) :
    s.Fits ⟨batchField s.name s.alternate absent, fit, w⟩ where
  accepts key := by simp [Label.accepts, batchField, eq_comm (a := key)]
  fit h := hfit _ h
  absent := habsent
  cut := habsent

/-- The fields of a method with what they are fitted to. -/
def MethodInput.entries (m : MethodInput) : List Fitted := [
  ⟨batchField "signature" "Signature", Shape.string.fit?, .string m.signature⟩,
  ⟨batchField "body" "Body" (some (.string "")), Shape.string.fit?, .string m.body⟩,
  ⟨batchField "start_line" "StartLine" (some .null), lineShape.fit?, encode m.startLine⟩,
  ⟨batchField "end_line" "EndLine" (some .null), lineShape.fit?, encode m.endLine⟩]

/-- A method with all its fields. -/
def MethodInput.full (m : MethodInput) : Value := .object (m.entries.map Fitted.member)

theorem MethodInput.fit?_written (m : MethodInput) (v : Value) (h : m.WrittenAs v) :
    (Codec.shape MethodInput).fit? v = some m.full := by
  have hslots : List.Forall₂ Slot.Fits m.slots m.entries := by
    refine .cons (fits_field (fit?_text _) False.elim) (.cons
      (fits_field (fit?_text _) fun hbody => ?_) (.cons
      (fits_field (fit?_line _) fun hstart => ?_) (.cons
      (fits_field (fit?_line _) fun hend => ?_) .nil)))
    · rw [hbody]
    · rw [hstart]
      rfl
    · rw [hend]
      rfl
  have hapart : Apart (m.entries.map Fitted.label) :=
    show Apart [batchField "signature" "Signature", batchField "body" "Body" (some (.string "")),
      batchField "start_line" "StartLine" (some .null),
      batchField "end_line" "EndLine" (some .null)] by decide
  exact Record.fit? rfl hapart hslots h

theorem MethodInput.decode?_full (m : MethodInput) : decode? m.full = some m := by
  simp [full, entries, Fitted.member, batchField, decode?, decodeLine?_encode]

def CallInput.entries (c : CallInput) : List Fitted := [
  ⟨batchField "caller" "Caller", Shape.string.fit?, .string c.caller⟩,
  ⟨batchField "callee" "Callee", Shape.string.fit?, .string c.callee⟩]

/-- A call with both its fields. -/
def CallInput.full (c : CallInput) : Value := .object (c.entries.map Fitted.member)

theorem CallInput.fit?_written (c : CallInput) (v : Value) (h : c.WrittenAs v) :
    (Codec.shape CallInput).fit? v = some c.full := by
  have hslots : List.Forall₂ Slot.Fits c.slots c.entries :=
    .cons (fits_field (fit?_text _) False.elim) (.cons
      (fits_field (fit?_text _) False.elim) .nil)
  have hapart : Apart (c.entries.map Fitted.label) :=
    show Apart [batchField "caller" "Caller", batchField "callee" "Callee"] by decide
  exact Record.fit? rfl hapart hslots h

theorem CallInput.decode?_full (c : CallInput) : decode? c.full = some c := rfl

namespace Batch

def entries (b : Batch) : List Fitted := [
  ⟨batchField "project" "Project", Shape.string.fit?, .string b.project⟩,
  ⟨batchField "document" "Document", Shape.string.fit?, .string b.document⟩,
  ⟨batchField "classes" "Classes" (some (.array [])), (Shape.list .string).fit?,
    .array (b.classes.map .string)⟩,
  ⟨batchField "methods" "Methods" (some (.array [])), (Shape.list (Codec.shape MethodInput)).fit?,
    .array (b.methods.map MethodInput.full)⟩,
  ⟨batchField "calls" "Calls" (some (.array [])), (Shape.list (Codec.shape CallInput)).fit?,
    .array (b.calls.map CallInput.full)⟩]

/-- A batch with all its fields. -/
def full (b : Batch) : Value := .object (b.entries.map Fitted.member)

theorem fit?_written (b : Batch) (v : Value) (h : b.WrittenAs v) :
    (Codec.shape Batch).fit? v = some b.full := by
  have hslots : List.Forall₂ Slot.Fits b.slots b.entries := by
    refine .cons (fits_field (fit?_text _) False.elim) (.cons
      (fits_field (fit?_text _) False.elim) (.cons
      (fits_field (fun _ => fit?_list fit?_text) fun hclasses => ?_) (.cons
      (fits_field (fun _ => fit?_list MethodInput.fit?_written) fun hmethods => ?_) (.cons
      (fits_field (fun _ => fit?_list CallInput.fit?_written) fun hcalls => ?_) .nil))))
    · rw [hclasses]
      rfl
    · rw [hmethods]
      rfl
    · rw [hcalls]
      rfl
  have hapart : Apart (b.entries.map Fitted.label) :=
    show Apart [batchField "project" "Project", batchField "document" "Document",
      batchField "classes" "Classes" (some (.array [])),
      batchField "methods" "Methods" (some (.array [])),
      batchField "calls" "Calls" (some (.array []))] by decide
  exact Record.fit? rfl hapart hslots h

/-- Items that decode one by one are a list. -/
theorem decodeList?_map {α : Type} [Codec α] {full : α → Value} (h : ∀ a, decode? (full a) = some a)
    (as : List α) : decodeList? (.array (as.map full)) = some as :=
  mapM_eq_some_iff.2 (List.forall₂_map_left_iff.2 (List.forall₂_same.2 fun a _ => h a))

theorem decode?_full (b : Batch) : decode? b.full = some b := by
  have hclasses : (b.classes.map Value.string).mapM decodeText? = some b.classes :=
    (forms_texts b.classes).2
  have hmethods := decodeList?_map MethodInput.decode?_full b.methods
  have hcalls := decodeList?_map CallInput.decode?_full b.calls
  simp only [full, entries, List.map, Fitted.member, decode?, batchField, hclasses, hmethods, hcalls,
    bind, Option.bind]

/-- **Every value that writes a batch is taken as it.** -/
theorem ofValue?_written {b : Batch} {v : Value} (h : b.WrittenAs v) : ofValue? v = some b := by
  unfold ofValue?
  rw [b.fit?_written v h, Option.bind_some, b.decode?_full]

theorem listOfValue?_written {bs : List Batch} {items : List Value}
    (h : List.Forall₂ WrittenAs bs items) : listOfValue? (.array items) = some bs :=
  mapM_eq_some_iff.2 (h.flip.imp fun _ _ => ofValue?_written)

/-! ## One batch or a list of them -/

/-- The value of one batch is an object, or a list that starts with a text. -/
theorem ofValue?_starts {b : Batch} {v : Value} (h : ofValue? v = some b) :
    (∃ members, v = .object members) ∨ ∃ s items, v = .array (.string s :: items) := by
  obtain ⟨w, hw, -⟩ := Option.bind_eq_some_iff.1 h
  cases v with
  | object members => exact Or.inl ⟨members, rfl⟩
  | array items =>
    cases items with
    | nil => cases hw
    | cons v items =>
      cases v with
      | string s => exact Or.inr ⟨s, items, rfl⟩
      | _ => cases hw
  | _ => cases hw

/-- **No value is both** one batch and a list of batches. -/
theorem one_or_list (v : Value) : ofValue? v = none ∨ listOfValue? v = none := by
  cases hone : ofValue? v with
  | none => exact Or.inl rfl
  | some b =>
    refine Or.inr ?_
    rcases ofValue?_starts hone with ⟨members, rfl⟩ | ⟨s, items, rfl⟩
    · rfl
    · -- a text is no batch
      have htext : ofValue? (.string s) = none := rfl
      show (Value.string s :: items).mapM ofValue? = none
      rw [List.mapM_cons, htext]
      rfl

/-! ## A field written twice -/

/-- A value in which an object of a batch, of a method or of a call writes a field twice: the value is
read as one batch, or as a list of batches. -/
def WritesTwice (v : Value) : Prop :=
  (Codec.shape Batch).Repeats v ∨ (Shape.list (Codec.shape Batch)).Repeats v

theorem fit?_of_ofValue? {v : Value} (h : (ofValue? v).isSome = true) :
    ((Codec.shape Batch).fit? v).isSome = true := by
  obtain ⟨b, hb⟩ := Option.isSome_iff_exists.1 h
  obtain ⟨w, hw, -⟩ := Option.bind_eq_some_iff.1 hb
  rw [hw]
  rfl

theorem fit?_of_listOfValue? {v : Value} (h : (listOfValue? v).isSome = true) :
    ((Shape.list (Codec.shape Batch)).fit? v).isSome = true := by
  cases v with
  | array items =>
    have hitems : ∀ v ∈ items, ((Codec.shape Batch).fit? v).isSome = true :=
      fun v hv => fit?_of_ofValue? (isSome_mapM_iff.1 h v hv)
    rw [Shape.fit?, Option.isSome_map]
    exact isSome_mapM_iff.2 hitems
  | _ => cases h

/-- **A value in which a field is written twice is no batch**, and no list of batches. The objects of one
batch are inside no list or two, those of a list of batches inside one or three. -/
theorem twice_refused {v : Value} (h : WritesTwice v) : allOfValue? v = none := by
  have hapart : ∀ n ∈ (Codec.shape Batch).objectDepths,
      n ∉ (Shape.list (Codec.shape Batch)).objectDepths := by decide
  have hone : (Codec.shape Batch).fit? v = none :=
    h.elim Shape.Repeats.fit? fun h => h.fit?_apart fun n hn hn' => hapart n hn' hn
  have hmany : (Shape.list (Codec.shape Batch)).fit? v = none :=
    h.elim (fun h => h.fit?_apart hapart) Shape.Repeats.fit?
  have hlist : listOfValue? v = none := by
    by_contra hsome
    have hfit := fit?_of_listOfValue? (Option.isSome_iff_ne_none.2 hsome)
    rw [hmany] at hfit
    cases hfit
  have hbatch : ofValue? v = none := by
    by_contra hsome
    have hfit := fit?_of_ofValue? (Option.isSome_iff_ne_none.2 hsome)
    rw [hone] at hfit
    cases hfit
  unfold allOfValue?
  rw [hlist, hbatch]
  rfl

/-! ## Texts -/

/-- **A text is parsed as what its value stands for**, and refused if it has no value, or if the value
stands for no batches. -/
theorem parse_text {tree : Tree} {text : String} (h : JsonText tree text.toList) :
    match (tree.value? maxDepth).bind allOfValue? with
    | some bs => parse text = .ok bs
    | none => ∃ message, parse text = .error (.json message) := by
  obtain ⟨blank, hb, hread⟩ := h.readValue maxDepth
  have hchars : (parseChars text.toList).toOption = (tree.value? maxDepth).bind allOfValue? := by
    unfold parseChars
    rw [toOption_bind, hread]
    cases tree.value? maxDepth with
    | none => rfl
    | some v =>
      simp only [Option.map_some, Option.bind_some]
      cases allOfValue? v with
      | none => rfl
      | some bs =>
        rw [endDocument_blank hb]
        rfl
  rw [← hchars]
  unfold parse
  cases parseChars text.toList with
  | ok bs => rfl
  | error f => exact ⟨_, rfl⟩

/-- **All spellings of a batch are parsed as it.** A batch may be written by any JSON text in which each of
its records is an object with its fields in any order, under either of their names, and with any other
names between them, or a list of its fields; what may be left out may be left out. The text has a value:
nothing in it is nested too deep, no number is too large and no half of a pair of escapes stands alone.
A list of such values is parsed as the list of the batches. No value is both. If an object writes a field
twice, the text is refused. The number of a line is written with its digits. -/
theorem parse_spelled :
    (∀ (b : Batch) (tree : Tree) (text : String) (v : Value), JsonText tree text.toList →
      tree.value? maxDepth = some v → b.WrittenAs v → parse text = .ok [b]) ∧
    (∀ (bs : List Batch) (tree : Tree) (text : String) (items : List Value),
      JsonText tree text.toList → tree.value? maxDepth = some (.array items) →
      List.Forall₂ WrittenAs bs items → parse text = .ok bs) ∧
    (∀ v, ofValue? v = none ∨ listOfValue? v = none) ∧
    (∀ (tree : Tree) (text : String), JsonText tree text.toList →
      (∀ v, tree.value? maxDepth = some v → WritesTwice v) →
      ∃ message, parse text = .error (.json message)) ∧
    ∀ line : UInt32, NumberText (Nat.toDigits 10 line.toNat) ∧
      number? false (Nat.toDigits 10 line.toNat) = some (.whole line.toNat) := by
  refine ⟨?_, ?_, one_or_list, ?_, fun line => ⟨numberText_toDigits _, number?_toDigits ?_⟩⟩
  · intro b tree text v htext hvalue hwritten
    have hone := ofValue?_written hwritten
    have hmany : listOfValue? v = none := (one_or_list v).resolve_left (by simp [hone])
    have hparse := parse_text htext
    rw [hvalue, Option.bind_some, allOfValue?, hone, hmany] at hparse
    exact hparse
  · intro bs tree text items htext hvalue hwritten
    have hparse := parse_text htext
    rw [hvalue, Option.bind_some, allOfValue?, listOfValue?_written hwritten] at hparse
    exact hparse
  · intro tree text htext htwice
    have hparse := parse_text htext
    have hnone : (tree.value? maxDepth).bind allOfValue? = none := by
      cases hvalue : tree.value? maxDepth with
      | none => rfl
      | some v => exact twice_refused (htwice v hvalue)
    rw [hnone] at hparse
    exact hparse
  · have hline : line.toNat < Nat.pow 2 32 := line.toNat_lt
    exact Nat.le_of_lt (Nat.lt_of_lt_of_le hline (by decide))

/-- A list for the batch, whose method is an object with a second name first, blanks, an unknown name and
an escape; a list of that batch, twice; and a list of a batch whose call names its callee twice. -/
theorem parse_spelled_shuffled :
    let b : Batch := ⟨"P", "D", [], [⟨"f", "", none, some 7⟩], []⟩
    let method : Tree := .object [(plain "EndLine", .number false ['7']), (plain "x", .array [.null]),
      (plain "signature", .string (plain "f"))]
    let one : Tree := .array [.string (plain "P"), .string (plain "D"), .array [], .array [method]]
    let twice : Tree := .array [.object [(plain "calls", .array [.object [
      (plain "callee", .string (plain "P")), (plain "Callee", .string (plain "D"))]])]]
    let text := "[\"P\",\"D\",[],[\x7b\"EndLine\":7,\"x\":[null] ,\"signature\":\"\\u0066\"\x7d]]"
    let text' := "[\x7b\"calls\":[\x7b\"callee\":\"P\",\"Callee\":\"D\"\x7d]\x7d]"
    JsonText one text.toList ∧ parse text = .ok [b] ∧
      JsonText (.array [one, one]) ("[" ++ text ++ "," ++ text ++ "]").toList ∧
      parse ("[" ++ text ++ "," ++ text ++ "]") = .ok [b, b] ∧
      JsonText twice text'.toList ∧ ∃ message, parse text' = .error (.json message) := by
  intro b method one twice text text'
  obtain ⟨hone, hmany, -, htwice, -⟩ := parse_spelled
  have hseven : NumberText ['7'] := numberText_toDigits 7
  have hspace : Blank [' '] := List.forall_mem_singleton.2 rfl
  have hletter : StringText (plain "f") "\\u0066".toList := by
    have hpiece : PieceText (.char (Char.ofNat 0x66)) ['\\', 'u', '0', '0', '6', '6'] :=
      .number (by decide) (by decide) (by decide)
    exact StringText.cons hpiece .nil
  have hnull : SpelledItem (.array [.null]) ("[null]".toList ++ [' ']) :=
    .intro (.array (.cons Value.blank_nil Spelled.null.item (.nil Value.blank_nil))) hspace
  have hmethod := Spelled.object
    (.cons Value.blank_nil (.plain "EndLine" (by decide) (Spelled.number hseven).item)
    (.cons Value.blank_nil (.plain "x" (by decide) hnull)
    (.cons Value.blank_nil (.plain "signature" (by decide) (Spelled.string hletter).item)
    (.nil Value.blank_nil))))
  have hlist : Spelled one text.toList := by
    have hlist := Spelled.array (.cons Value.blank_nil (.plain "P" (by decide))
      (.cons Value.blank_nil (.plain "D" (by decide))
      (.cons Value.blank_nil (Spelled.array (.nil Value.blank_nil)).item
      (.cons Value.blank_nil
        (Spelled.array (.cons Value.blank_nil hmethod.item (.nil Value.blank_nil))).item
      (.nil Value.blank_nil)))))
    refine cast (congrArg _ ?_) hlist
    decide +kernel
  have hlists : Spelled (.array [one, one]) ("[" ++ text ++ "," ++ text ++ "]").toList := by
    have hlists := Spelled.array (.cons Value.blank_nil hlist.item
      (.cons Value.blank_nil hlist.item (.nil Value.blank_nil)))
    simpa [comma] using hlists
  have hcalls : Spelled twice text'.toList := by
    have hcall := Spelled.object
      (.cons Value.blank_nil (.plain "callee" (by decide) (.plain "P" (by decide)))
      (.cons Value.blank_nil (.plain "Callee" (by decide) (.plain "D" (by decide)))
      (.nil Value.blank_nil)))
    have hitem := Spelled.array (.cons Value.blank_nil hcall.item (.nil Value.blank_nil))
    have hbatch := Spelled.object
      (.cons Value.blank_nil (.plain "calls" (by decide) hitem.item) (.nil Value.blank_nil))
    have hlist := Spelled.array (.cons Value.blank_nil hbatch.item (.nil Value.blank_nil))
    refine cast (congrArg _ ?_) hlist
    decide +kernel
  let v : Value := .array [.string "P", .string "D", .array [], .array [.object
    [("EndLine", .whole 7), ("x", .array [.null]), ("signature", .string "f")]]]
  have hwritten : b.WrittenAs v := by
    have hm : MethodInput.WrittenAs ⟨"f", "", none, some 7⟩ (.object
        [("EndLine", .whole 7), ("x", .array [.null]), ("signature", .string "f")]) := by
      refine .object ?_
      simp [MethodInput.slots, Slot.InObject, Slot.among, IsText, IsLine]
    exact .array (.given rfl (.given rfl (.given ⟨[], rfl, .nil⟩
      (.given ⟨[_], rfl, .cons hm .nil⟩ (.omitted rfl .nil)))))
  have hrepeats : ∀ v, twice.value? maxDepth = some v → WritesTwice v := by
    intro v hv
    obtain rfl := Option.some.inj hv
    refine Or.inr (.item List.mem_cons_self (.member List.mem_cons_self rfl
      (.item List.mem_cons_self ?_)))
    exact .twice (List.Sublist.refl _) rfl rfl
  have htext {tree : Tree} {text : String} (h : Spelled tree text.toList) :
      JsonText tree text.toList := .intro Value.blank_nil h.item
  exact ⟨htext hlist, hone b one text v (htext hlist) rfl hwritten, htext hlists,
    hmany [b, b] _ _ [v, v] (htext hlists) rfl (.cons hwritten (.cons hwritten .nil)), htext hcalls,
    htwice twice text' (htext hcalls) hrepeats⟩

/-- Half of a pair in a field that no record has: the text is refused, though the same text with a whole
pair there is one batch. -/
theorem lone_half_refused :
    let tree (pieces : List Piece) : Tree := .object [(plain "project", .string (plain "P")),
      (plain "document", .string (plain "D")), (plain "x", .string pieces)]
    let text := "\x7b\"project\":\"P\",\"document\":\"D\",\"x\":\"\\ud800\"\x7d"
    let text' := "\x7b\"project\":\"P\",\"document\":\"D\",\"x\":\"\\ud83d\\ude00\"\x7d"
    JsonText (tree [.half 0xD800]) text.toList ∧ (∃ message, parse text = .error (.json message)) ∧
      JsonText (tree [.half 0xD83D, .half 0xDE00]) text'.toList ∧
      parse text' = .ok [⟨"P", "D", [], [], []⟩] := by
  intro tree text text'
  have htree : ∀ pieces chars, StringText pieces chars → JsonText (tree pieces)
      ("\x7b\"project\":\"P\",\"document\":\"D\",\"x\":\"".toList ++ (chars ++ ['"', '}'])) := by
    intro pieces chars h
    have hobject := Spelled.object
      (.cons Value.blank_nil (.plain "project" (by decide) (.plain "P" (by decide)))
      (.cons Value.blank_nil (.plain "document" (by decide) (.plain "D" (by decide)))
      (.cons Value.blank_nil (.plain "x" (by decide) (Spelled.string h).item)
      (.nil Value.blank_nil))))
    have htext := JsonText.intro Value.blank_nil hobject.item
    simpa [comma] using htext
  have hfirst : PieceText (.half 0xD83D) ['\\', 'u', 'd', '8', '3', 'd'] :=
    .half (by decide) (by decide)
  have hsecond : PieceText (.half 0xDE00) ['\\', 'u', 'd', 'e', '0', '0'] :=
    .half (by decide) (by decide)
  have halone : PieceText (.half 0xD800) ['\\', 'u', 'd', '8', '0', '0'] :=
    .half (by decide) (by decide)
  have hlone := htree _ _ (.cons halone .nil)
  have hpair := htree _ _ (.cons hfirst (.cons hsecond .nil))
  have hlone' : JsonText (tree [.half 0xD800]) text.toList := by
    refine cast (congrArg _ ?_) hlone
    decide +kernel
  have hpair' : JsonText (tree [.half 0xD83D, .half 0xDE00]) text'.toList := by
    refine cast (congrArg _ ?_) hpair
    decide +kernel
  exact ⟨hlone', parse_text hlone', hpair', parse_text hpair'⟩

end Batch

end CallIndex
