import CallIndex.Batch.Json
import CallIndex.Proofs.JsonShape
import CallIndex.Report.Json
import CallIndex.Row.Json

/-!
# What is written reads back

Every type that is written as JSON and read is read back as what was written, whatever texts are in it. A
batch is read from one batch and from a list of batches, and the two are never confused.

* `Json.Lawful`: what is written of a value has the shape of its type, and decodes to the value.
* `Json.Lawful.read_write`, `Json.Lawful.encode_injective`: so it reads back, and it is told by what is
  written of it.
* `json_reads_back`: **decoding undoes encoding**, for every type of the library.
-/

namespace CallIndex

open Json

namespace Json

/-! ## Lawful types -/

/-- What is written of a value is read as something that decodes to the value, if its numbers have 64
bits. -/
class Lawful (α : Type) [Codec α] : Prop where
  forms (a : α) : (encode a).Narrow →
    ∃ w, (Codec.shape α).Forms (encode a) w ∧ decode? w = some a

theorem narrow_list {α : Type} [Encode α] {as : List α} :
    (encode as).Narrow ↔ ∀ a ∈ as, (encode a).Narrow := by
  show (Value.array (as.map encode)).Narrow ↔ _
  rw [Value.narrow_array, List.forall_mem_map]

variable {α : Type} [Codec α]

theorem read_write_of_forms {a : α} {w : Value} (h : (Codec.shape α).Forms (encode a) w)
    (hw : decode? w = some a) : read α (write a) = .ok a := by
  have hread := h.readDocument h.narrow.compact
  unfold read write Value.compact
  rw [String.toList_ofList, hread]
  simp only [bind, Except.bind, hw]

theorem narrow_of_forms {a : α}
    (h : ∃ w, (Codec.shape α).Forms (encode a) w ∧ decode? w = some a) : (encode a).Narrow := by
  obtain ⟨w, hw, -⟩ := h
  exact hw.narrow

namespace Lawful

variable [Lawful α]

/-- **A value reads back.** -/
theorem read_write {a : α} (h : (encode a).Narrow) : read α (write a) = .ok a := by
  obtain ⟨w, hw, hdecode⟩ := forms a h
  exact read_write_of_forms hw hdecode

/-- **A value is told by what is written of it.** -/
theorem encode_injective {a b : α} (h : (encode a).Narrow) (hab : encode b = encode a) : b = a := by
  obtain ⟨w, hw, hdecode⟩ := forms a h
  obtain ⟨w', hw', hdecode'⟩ := forms b (hab ▸ h)
  have hfit := hw'.fit?
  rw [hab, hw.fit?, Option.some_inj] at hfit
  rw [← hfit, hdecode, Option.some_inj] at hdecode'
  exact hdecode'.symm

theorem depth_le {a : α} (h : (encode a).Narrow) : (encode a).depth ≤ (Codec.shape α).depth := by
  obtain ⟨w, hw, -⟩ := forms a h
  exact hw.depth_le

/-- The items of a list. -/
theorem forms_all {as : List α} (h : (encode as).Narrow) :
    ∃ ws, (Shape.list (Codec.shape α)).Forms (encode as) (.array ws) ∧
      decodeList? (.array ws) = some as := by
  have hitems : ∃ ws, (Codec.shape α).FormsAll (as.map encode) ws ∧ ws.mapM decode? = some as := by
    have h := narrow_list.1 h
    clear * - h
    induction as with
    | nil => exact ⟨[], .nil, rfl⟩
    | cons a as ih =>
      obtain ⟨ha, has⟩ := List.forall_mem_cons.1 h
      obtain ⟨w, hw, hdecode⟩ := forms a ha
      obtain ⟨ws, hws, hdecodes⟩ := ih has
      refine ⟨w :: ws, .cons hw hws, ?_⟩
      rw [List.mapM_cons, hdecode, hdecodes]
      rfl
  obtain ⟨ws, hws, hdecodes⟩ := hitems
  exact ⟨ws, .list hws, hdecodes⟩

end Lawful

@[simp]
theorem Label.required_name (name : String) : (Label.required name).name = name := rfl

/-- A line number, or null, stands for itself. -/
theorem forms_line (line : Option UInt32) : lineShape.Forms (encode line) (encode line) := by
  cases line with
  | none => exact .absent _
  | some n =>
    have hn : (n.toNat : Int) < Int.pow 2 32 := Int.ofNat_lt.2 n.toNat_lt
    have hholds : Width.unsigned32.holds n.toNat = true := by
      unfold Width.holds
      rw [Bool.and_eq_true, decide_eq_true_eq, decide_eq_true_eq]
      exact ⟨Int.natCast_nonneg _, hn⟩
    exact .present (.whole hholds) (by simp [encode])

theorem decodeLine?_encode (line : Option UInt32) : decodeLine? (encode line) = some line := by
  cases line with
  | none => rfl
  | some n => simp [encode, decodeLine?]

end Json

/-! ## Rows -/

instance : Lawful RowId where
  forms _ h := ⟨_, .whole (Value.narrow_whole.1 h), rfl⟩

instance : Lawful Project where
  forms r h := by
    have hid : Width.signed64.holds r.id = true := by simpa [encode] using h
    exact ⟨_, .record (by decide) (.given (.whole hid) (.given (.string _) .nil)), rfl⟩

instance : Lawful Document where
  forms r h := by
    obtain ⟨hid, hproject⟩ : Width.signed64.holds r.id = true ∧
      Width.signed64.holds r.projectId = true := by simpa [encode] using h
    exact ⟨_, .record (by decide) (.given (.whole hid) (.given (.whole hproject)
      (.given (.string _) .nil))), rfl⟩

instance : Lawful Class where
  forms r h := by
    obtain ⟨hid, hdocument⟩ : Width.signed64.holds r.id = true ∧
      Width.signed64.holds r.documentId = true := by simpa [encode] using h
    exact ⟨_, .record (by decide) (.given (.whole hid) (.given (.whole hdocument)
      (.given (.string _) .nil))), rfl⟩

instance : Lawful Method where
  forms r h := by
    have hid := Value.narrow_object.1 h ("id", encode r.id) (by simp)
    have hclass := Value.narrow_object.1 h ("class_id", encode r.classId) (by simp)
    refine ⟨_, .record (by decide) (.given (.whole (Value.narrow_whole.1 hid))
      (.given (.whole (Value.narrow_whole.1 hclass)) (.given (.string _) (.given (.string _)
      (.given (.string _) (.given (forms_line r.startLine) (.given (forms_line r.endLine)
      .nil))))))), ?_⟩
    simp [decode?, decodeLine?_encode]

instance : Lawful MethodCall where
  forms r h := by
    obtain ⟨hid, hcaller, hcallee⟩ : Width.signed64.holds r.id = true ∧
      Width.signed64.holds r.callerId = true ∧ Width.signed64.holds r.calleeId = true := by
        simpa [encode] using h
    exact ⟨_, .record (by decide) (.given (.whole hid) (.given (.whole hcaller)
      (.given (.whole hcallee) .nil))), rfl⟩

instance : Lawful MethodRef where
  forms r h := by
    have hid : Width.signed64.holds r.methodId = true := by simpa [encode] using h
    exact ⟨_, .record (by decide) (.given (.whole hid) (.given (.string _)
      (.given (.string _) .nil))), rfl⟩

instance : Lawful EdgeRef where
  forms r h := by
    have hid : Width.signed64.holds r.id = true := by simpa [encode] using h
    exact ⟨_, .record (by decide) (.given (.whole hid) (.given (.string _) .nil)), rfl⟩

instance : Lawful GraphRow where
  forms r h := by
    obtain ⟨hproject, hdocument, hclass, hmethod, -⟩ : Width.signed64.holds r.projectId = true ∧
      Width.signed64.holds r.documentId = true ∧ Width.signed64.holds r.classId = true ∧
      Width.signed64.holds r.methodId = true ∧ _ := by simpa [encode] using h
    obtain ⟨callees, hcallees, hdecode⟩ :=
      Lawful.forms_all (Value.narrow_object.1 h ("callees", encode r.callees) (by simp))
    obtain ⟨callers, hcallers, hdecode'⟩ :=
      Lawful.forms_all (Value.narrow_object.1 h ("callers", encode r.callers) (by simp))
    refine ⟨_, .record (by decide) (.given (.whole hproject) (.given (.string _)
      (.given (.whole hdocument) (.given (.string _) (.given (.whole hclass) (.given (.string _)
      (.given (.whole hmethod) (.given (.string _) (.given (.string _) (.given (.string _)
      (.given hcallees (.given hcallers .nil)))))))))))), ?_⟩
    simp [decode?, hdecode, hdecode']

instance : Lawful MethodSource where
  forms r h := by
    have hid : Width.signed64.holds r.methodId = true := by simpa [encode] using h
    exact ⟨_, .record (by decide) (.given (.string _) (.given (.whole hid) .nil)), rfl⟩

instance : Lawful MethodDetail where
  forms r h := by
    have hid : Width.signed64.holds r.methodId = true := by simpa [encode] using h
    exact ⟨_, .record (by decide) (.given (.whole hid) (.given (.string _)
      (.given (.string _) .nil))), rfl⟩

instance : Lawful UsedMethods where
  forms r h := by
    obtain ⟨ws, hws, hdecode⟩ :=
      Lawful.forms_all (Value.narrow_object.1 h ("used_methods", encode r.usedMethods) (by simp))
    refine ⟨_, .record (by decide) (.given hws .nil), ?_⟩
    simp [decode?, hdecode]

instance : Lawful RelatedMethods where
  forms r h := by
    obtain ⟨ws, hws, hdecode⟩ := Lawful.forms_all
      (Value.narrow_object.1 h ("related_methods", encode r.relatedMethods) (by simp))
    refine ⟨_, .record (by decide) (.given hws .nil), ?_⟩
    simp [decode?, hdecode]

instance : Lawful GraphData where
  forms r h := by
    obtain ⟨ws, hws, hdecode⟩ :=
      Lawful.forms_all (Value.narrow_object.1 h ("data", encode r.data) (by simp))
    refine ⟨_, .record (by decide) (.given hws .nil), ?_⟩
    simp [decode?, hdecode]

/-! ## Reports -/

instance : Lawful Status where
  forms _ _ := ⟨_, .keyword _, rfl⟩

instance : Lawful Outcome where
  forms r h := by
    have hid := Value.narrow_object.1 h ("id", encode r.id) (by simp)
    exact ⟨_, .record (by decide) (.given (.whole (Value.narrow_whole.1 hid))
      (.given (.keyword _) .nil)), rfl⟩

/-- A failure has no numbers. -/
theorem BatchFailure.forms (r : BatchFailure) :
    ∃ w, (Codec.shape BatchFailure).Forms (encode r) w ∧ decode? w = some r :=
  ⟨_, .record (by decide) (.given (.string _) .nil), rfl⟩

instance : Lawful BatchFailure := ⟨fun r _ => r.forms⟩

/-! ## Batches -/

/-- A line number is written, or it is left out and null stands for it. -/
theorem formsEach_line (label : Label) (habsent : label.absent = some .null) (line : Option UInt32)
    {fields : List (Label × Shape)} {members found values : List (String × Value)}
    (hrest : Shape.FormsEach fields members found values) :
    ∃ found', Shape.FormsEach ((label, lineShape) :: fields)
      (lineMember label.name line ++ members) found' ((label.name, encode line) :: values) := by
  cases line with
  | none => exact ⟨found, .omitted habsent hrest⟩
  | some n => exact ⟨_, .given (forms_line (some n)) hrest⟩

/-- The numbers of an input are its lines, and they have 32 bits. -/
theorem MethodInput.forms (m : MethodInput) :
    ∃ w, (Codec.shape MethodInput).Forms (encode m) w ∧ decode? w = some m := by
  obtain ⟨_, hend⟩ := formsEach_line (batchField "end_line" "EndLine" (some .null)) rfl
    m.endLine .nil
  obtain ⟨_, hlines⟩ := formsEach_line (batchField "start_line" "StartLine" (some .null)) rfl
    m.startLine hend
  have hmembers : encode m = .object (("signature", .string m.signature) ::
      ("body", .string m.body) :: (lineMember "start_line" m.startLine ++
        (lineMember "end_line" m.endLine ++ []))) := by simp [encode]
  rw [hmembers]
  refine ⟨_, .record (by decide) (.given (.string _) (.given (.string _) hlines)), ?_⟩
  simp [decode?, batchField, decodeLine?_encode]

instance : Lawful MethodInput := ⟨fun m _ => m.forms⟩

theorem MethodInput.narrow (m : MethodInput) : (encode m).Narrow := narrow_of_forms m.forms

theorem CallInput.forms (c : CallInput) :
    ∃ w, (Codec.shape CallInput).Forms (encode c) w ∧ decode? w = some c :=
  ⟨_, .record (by decide) (.given (.string _) (.given (.string _) .nil)), rfl⟩

instance : Lawful CallInput := ⟨fun c _ => c.forms⟩

theorem CallInput.narrow (c : CallInput) : (encode c).Narrow := narrow_of_forms c.forms

/-- The texts of a list stand for themselves. -/
theorem forms_texts (texts : List String) :
    (Shape.list .string).Forms (encode texts) (encode texts) ∧
      (texts.map encode).mapM decodeText? = some texts := by
  have hitems : Shape.string.FormsAll (texts.map encode) (texts.map encode) ∧
      (texts.map encode).mapM decodeText? = some texts := by
    induction texts with
    | nil => exact ⟨.nil, rfl⟩
    | cons s texts ih =>
      refine ⟨.cons (.string s) ih.1, ?_⟩
      rw [List.map_cons, List.mapM_cons, ih.2]
      rfl
  exact ⟨.list hitems.1, hitems.2⟩

namespace Batch

theorem forms (b : Batch) : ∃ w, (Codec.shape Batch).Forms (encode b) w ∧ decode? w = some b := by
  obtain ⟨hclasses, hnames⟩ := forms_texts b.classes
  have hnarrow : (encode b.methods).Narrow := narrow_list.2 fun m _ => m.narrow
  have hnarrow' : (encode b.calls).Narrow := narrow_list.2 fun c _ => c.narrow
  obtain ⟨methods, hmethods, hdecode⟩ := Lawful.forms_all hnarrow
  obtain ⟨calls, hcalls, hdecode'⟩ := Lawful.forms_all hnarrow'
  refine ⟨_, .record (by decide) (.given (.string _) (.given (.string _) (.given hclasses
    (.given hmethods (.given hcalls .nil))))), ?_⟩
  have htexts : encode b.classes = .array (b.classes.map encode) := rfl
  simp only [decode?, batchField, htexts, hnames, hdecode, hdecode', bind, Option.bind]

theorem narrow (b : Batch) : (encode b).Narrow := narrow_of_forms b.forms

theorem ofValue?_encode (b : Batch) : ofValue? (encode b) = some b := by
  obtain ⟨w, hw, hdecode⟩ := b.forms
  unfold ofValue?
  rw [hw.fit?, Option.bind_some, hdecode]

theorem listOfValue?_encode (bs : List Batch) : listOfValue? (encode bs) = some bs := by
  show (bs.map encode).mapM ofValue? = some bs
  induction bs with
  | nil => rfl
  | cons b bs ih =>
    rw [List.map_cons, List.mapM_cons, ofValue?_encode, ih]
    rfl

/-- A value is parsed as the batches that it stands for. -/
theorem parse_compact {v : Value} {bs : List Batch} (hv : v.Narrow) (hd : v.depth ≤ maxDepth)
    (h : allOfValue? v = some bs) : parse v.compact = .ok bs := by
  have hread := hv.compact.readValue hv hd
  have hchars : parseChars v.compactChars = .ok bs := by
    unfold parseChars
    simp only [bind, Except.bind]
    rw [hread]
    simp only
    rw [h]
    rfl
  unfold parse Value.compact
  rw [String.toList_ofList, hchars]

end Batch

instance : Lawful Batch := ⟨fun b _ => b.forms⟩

namespace Batch

/-- **One batch** is an object, so it is not read as a list. -/
theorem parse_write (b : Batch) : parse (write b) = .ok [b] := by
  refine parse_compact b.narrow (Nat.le_trans (Lawful.depth_le b.narrow) (by decide)) ?_
  unfold allOfValue?
  rw [ofValue?_encode]
  rfl

/-- **A list of batches**, the empty one too. -/
theorem parse_write_list (bs : List Batch) : parse (write bs) = .ok bs := by
  have hnarrow : (encode bs).Narrow := narrow_list.2 fun b _ => b.narrow
  obtain ⟨ws, hws, -⟩ := Lawful.forms_all hnarrow
  refine parse_compact hnarrow (Nat.le_trans hws.depth_le (by decide)) ?_
  unfold allOfValue?
  rw [listOfValue?_encode]
  rfl

end Batch

/-! ## All types -/

/-- A type reads back: whatever is written, if its ids have 64 bits, is read as what it was. -/
def ReadsBack (α : Type) [Codec α] : Prop :=
  ∀ a : α, (encode a).Narrow → read α (write a) = .ok a

/-- **Decoding undoes encoding.** A batch is parsed from its text as that one batch, and a list of
batches as that list, be it empty. Every type that is written and read reads back, whatever its texts and
its lists are. Ids have 64 bits; a type without ids has no such condition. -/
theorem json_reads_back :
    (∀ b : Batch, Batch.parse (write b) = .ok [b]) ∧
    (∀ bs : List Batch, Batch.parse (write bs) = .ok bs) ∧
    (∀ b : Batch, read Batch (write b) = .ok b) ∧
    (∀ m : MethodInput, read MethodInput (write m) = .ok m) ∧
    (∀ c : CallInput, read CallInput (write c) = .ok c) ∧
    (∀ s : Status, read Status (write s) = .ok s) ∧
    (∀ f : BatchFailure, read BatchFailure (write f) = .ok f) ∧
    ReadsBack Outcome ∧ ReadsBack RowId ∧ ReadsBack Project ∧ ReadsBack Document ∧
    ReadsBack Class ∧ ReadsBack Method ∧ ReadsBack MethodCall ∧ ReadsBack MethodRef ∧
    ReadsBack EdgeRef ∧ ReadsBack GraphRow ∧ ReadsBack MethodSource ∧ ReadsBack MethodDetail ∧
    ReadsBack UsedMethods ∧ ReadsBack RelatedMethods ∧ ReadsBack GraphData := by
  refine ⟨Batch.parse_write, Batch.parse_write_list, fun b => Lawful.read_write b.narrow,
    fun m => Lawful.read_write m.narrow, fun c => Lawful.read_write c.narrow,
    fun s => Lawful.read_write (.string _),
    fun f => Lawful.read_write (narrow_of_forms f.forms), ?_⟩
  refine ⟨?_, ?_, ?_, ?_, ?_, ?_, ?_, ?_, ?_, ?_, ?_, ?_, ?_, ?_, ?_⟩ <;>
    exact fun _ h => Lawful.read_write h

/-- Texts with quotes, a backslash, controls and a character of code zero, the greatest line number and
ones that are left out, and the least and the greatest id. -/
theorem json_reads_back_limits :
    let m : MethodInput := ⟨"void A.f(\"\\\n\x00\x1fé😀)", "", none, some 4294967295⟩
    let b : Batch := ⟨"", "A.java", ["A", "\x00"], [m, ⟨"g", "\t", some 0, none⟩], [⟨"\"", ""⟩]⟩
    let e : EdgeRef := ⟨-9223372036854775808, "\x7f/"⟩
    let r : MethodCall := ⟨9223372036854775807, 0, -1⟩
    write m = "\x7b\"signature\":\"void A.f(\\\"\\\\\\n\\u0000\\u001fé😀)\",\"body\":\"\"," ++
        "\"end_line\":4294967295\x7d" ∧
      read MethodInput (write m) = .ok m ∧
      Batch.parse (write b) = .ok [b] ∧
      Batch.parse (write ([] : List Batch)) = .ok [] ∧
      Batch.parse (write [b, b]) = .ok [b, b] ∧
      (encode e).Narrow ∧ read EdgeRef (write e) = .ok e ∧
      (encode r).Narrow ∧ read MethodCall (write r) = .ok r := by
  intro m b e r
  obtain ⟨hone, hmany, -, hinput, -, -, -, -, -, -, -, -, -, hcall, -, hedge, -⟩ := json_reads_back
  have he : (encode e).Narrow := by
    have hid : Width.signed64.holds e.id = true := by decide
    simpa [encode] using hid
  have hr : (encode r).Narrow := by
    have hids : Width.signed64.holds r.id = true ∧ Width.signed64.holds r.callerId = true ∧
      Width.signed64.holds r.calleeId = true := by decide
    simpa [encode] using hids
  exact ⟨by decide +kernel, hinput m, hone b, hmany [], hmany [b, b], he, hedge e he, hr, hcall r hr⟩

end CallIndex
