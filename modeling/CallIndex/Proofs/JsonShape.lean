import CallIndex.Proofs.JsonGrammar

/-!
# Values of a shape read back

A value is written, and the text is read by a shape. What is read need not be what was written: a field
may be left out of a record, and its reader puts in what stands for it.

* `Shape.Forms`: a shape, a value as it is written, and the value that is read.
* `Each`: the same for the fields of a record, one by one, each given or left out.
* `Each.orderFields`: the fields that were found are put in order, with those that were left out.
* `readFields_separated`: the members of a record are read one after the other.
* `Shape.Forms.reads`: **every text of a value is read by its shape**, by one case for each shape.
* `Shape.Forms.fit?`: **the value itself is fitted to the same**.
* `Shape.Forms.readDocument`: the same for a whole text.
-/

namespace CallIndex.Json

/-- No field is read by the name of a later one. -/
def Separate {α : Type} (fields : List (Label × α)) : Prop :=
  fields.Pairwise fun f g => f.1.accepts g.1.name = false

instance {α : Type} (fields : List (Label × α)) : Decidable (Separate fields) :=
  inferInstanceAs (Decidable (fields.Pairwise _))

mutual

/-- A value as it is written for a shape, and as it is read. -/
inductive Shape.Forms : Shape → Value → Value → Prop where
  | whole {width : Width} {n : Int} (h : width.holds n = true) :
      Forms (.whole width) (.whole n) (.whole n)
  | string (s : String) : Forms .string (.string s) (.string s)
  | keyword (known : String) : Forms (.keyword known) (.string known) (.string known)
  | absent (inner : Shape) : Forms (.optional inner) .null .null
  | present {inner : Shape} {v w : Value} (h : Forms inner v w) (hv : v ≠ .null) :
      Forms (.optional inner) v w
  | list {item : Shape} {items values : List Value} (h : FormsAll item items values) :
      Forms (.list item) (.array items) (.array values)
  | record {name : String} {fields : List (Label × Shape)}
      {members found values : List (String × Value)} (hfields : Separate fields)
      (h : FormsEach fields members found values) :
      Forms (.record name fields) (.object members) (.object values)

/-- The items of a list. -/
inductive Shape.FormsAll : Shape → List Value → List Value → Prop where
  | nil {item : Shape} : FormsAll item [] []
  | cons {item : Shape} {v w : Value} {items values : List Value} (h : Forms item v w)
      (hrest : FormsAll item items values) : FormsAll item (v :: items) (w :: values)

/-- The fields of a record in their order: the members that are written, what is found of them, and all
fields that are read. -/
inductive Shape.FormsEach : List (Label × Shape) → List (String × Value) → List (String × Value) →
    List (String × Value) → Prop where
  | nil : FormsEach [] [] [] []
  | given {label : Label} {shape : Shape} {v w : Value} {fields : List (Label × Shape)}
      {members found values : List (String × Value)} (h : Forms shape v w)
      (hrest : FormsEach fields members found values) :
      FormsEach ((label, shape) :: fields) ((label.name, v) :: members) ((label.name, w) :: found)
        ((label.name, w) :: values)
  | omitted {label : Label} {shape : Shape} {w : Value} {fields : List (Label × Shape)}
      {members found values : List (String × Value)} (h : label.absent = some w)
      (hrest : FormsEach fields members found values) :
      FormsEach ((label, shape) :: fields) members found ((label.name, w) :: values)

end

/-! ## What is written -/

/-- Every range of whole numbers lies in 64 bits with a sign. -/
theorem Width.holds_signed64 {width : Width} {n : Int} (h : width.holds n = true) :
    signed64.holds n = true := by
  cases width with
  | signed64 => exact h
  | unsigned32 =>
    have hlimit : Int.pow 2 63 = 9223372036854775808 := rfl
    have hunsigned : Int.pow 2 32 = 4294967296 := rfl
    simp only [holds, hunsigned, hlimit, Bool.and_eq_true, decide_eq_true_eq] at h ⊢
    omega

mutual

theorem Shape.Forms.narrow {s : Shape} {v w : Value} : s.Forms v w → v.Narrow
  | .whole h => .whole (Width.holds_signed64 h)
  | .string s => .string s
  | .keyword known => .string known
  | .absent _ => .null
  | .present h _ => h.narrow
  | .list h => .array h.narrow
  | .record _ h => .object h.narrow

theorem Shape.FormsAll.narrow {s : Shape} {items values : List Value} :
    s.FormsAll items values → ∀ v ∈ items, v.Narrow
  | .nil => List.forall_mem_nil _
  | .cons h hrest => List.forall_mem_cons.2 ⟨h.narrow, hrest.narrow⟩

theorem Shape.FormsEach.narrow {fields : List (Label × Shape)}
    {members found values : List (String × Value)} :
    Shape.FormsEach fields members found values → ∀ m ∈ members, m.2.Narrow
  | .nil => List.forall_mem_nil _
  | .given h hrest => List.forall_mem_cons.2 ⟨h.narrow, hrest.narrow⟩
  | .omitted _ hrest => hrest.narrow

end

mutual

/-- How many lists and objects are around the innermost part of a value of a shape. -/
def Shape.depth : Shape → Nat
  | .optional inner => inner.depth
  | .list item => item.depth + 1
  | .record _ fields => Shape.fieldsDepth fields + 1
  | _ => 0

def Shape.fieldsDepth : List (Label × Shape) → Nat
  | [] => 0
  | (_, shape) :: rest => max shape.depth (fieldsDepth rest)

end

mutual

theorem Shape.Forms.depth_le {s : Shape} {v w : Value} : s.Forms v w → v.depth ≤ s.depth
  | .whole _ | .string _ | .keyword _ | .absent _ => Nat.zero_le _
  | .present h _ => by
    rw [Shape.depth]
    exact h.depth_le
  | .list h => by
    rw [Shape.depth]
    exact Value.depth_array_le.2 h.depth_le
  | .record _ h => by
    rw [Shape.depth]
    exact Value.depth_object_le.2 h.depth_le

theorem Shape.FormsAll.depth_le {s : Shape} {items values : List Value} :
    s.FormsAll items values → ∀ v ∈ items, v.depth ≤ s.depth
  | .nil => List.forall_mem_nil _
  | .cons h hrest => List.forall_mem_cons.2 ⟨h.depth_le, hrest.depth_le⟩

theorem Shape.FormsEach.depth_le {fields : List (Label × Shape)}
    {members found values : List (String × Value)} :
    Shape.FormsEach fields members found values →
      ∀ m ∈ members, m.2.depth ≤ Shape.fieldsDepth fields
  | .nil => List.forall_mem_nil _
  | .given h hrest => by
    rw [Shape.fieldsDepth]
    exact List.forall_mem_cons.2 ⟨Nat.le_trans h.depth_le (Nat.le_max_left _ _),
      fun m hm => Nat.le_trans (hrest.depth_le m hm) (Nat.le_max_right _ _)⟩
  | .omitted _ hrest => by
    rw [Shape.fieldsDepth]
    exact fun m hm => Nat.le_trans (hrest.depth_le m hm) (Nat.le_max_right _ _)

end

/-! ## The fields of a record -/

namespace Separate

variable {σ : Type} {field : Label × σ} {fields done todo : List (Label × σ)}

/-- Later fields have other names. -/
theorem ne (h : Separate (field :: fields)) : ∀ f ∈ fields, field.1.name ≠ f.1.name := by
  intro f hf e
  have hfield := (List.pairwise_cons.1 h).1 f hf
  rw [← e] at hfield
  simp [Label.accepts] at hfield

theorem tail (h : Separate (field :: fields)) : Separate fields := (List.pairwise_cons.1 h).2

theorem of_append (h : Separate fields) (hsplit : fields = done ++ todo) : Separate todo :=
  (List.pairwise_append.1 (hsplit ▸ h)).2.1

/-- A field is found by its own name. -/
theorem find? (h : Separate fields) (hsplit : fields = done ++ field :: todo) :
    fields.find? (fun f => f.1.accepts field.1.name) = some field := by
  subst hsplit
  have hbefore := (List.pairwise_append.1 h).2.2
  have hnone : done.find? (fun f => f.1.accepts field.1.name) = none := by
    rw [List.find?_eq_none]
    intro f hf
    simp [hbefore f hf field List.mem_cons_self]
  rw [List.find?_append, hnone, Option.none_or, List.find?_cons_of_pos (by simp [Label.accepts])]

theorem map {τ : Type} (g : σ → τ) (h : Separate fields) :
    Separate (fields.map fun f => (f.1, g f.2)) := by
  unfold Separate
  rw [List.pairwise_map]
  exact h

/-- When a field is found, the later ones are still to be found. -/
theorem lookup_later {init : List (String × Value)} {w : Value} (h : Separate (field :: fields))
    (hinit : ∀ f ∈ field :: fields, init.lookup f.1.name = none) :
    ∀ f ∈ fields, ((field.1.name, w) :: init).lookup f.1.name = none := by
  intro f hf
  rw [List.lookup_cons, beq_false_of_ne (h.ne f hf).symm]
  exact hinit f (List.mem_cons_of_mem _ hf)

end Separate

/-- What is written and what is read of the fields of a record, field by field. Each of them comes with
a reader, or with something else that the relation is about. -/
inductive Each {σ : Type} (P : σ → Value → Value → Prop) : List (Label × σ) →
    List (String × Value) → List (String × Value) → List (String × Value) → Prop where
  | nil : Each P [] [] [] []
  | given {label : Label} {s : σ} {v w : Value} {fields : List (Label × σ)}
      {members found values : List (String × Value)} (h : P s v w)
      (hrest : Each P fields members found values) :
      Each P ((label, s) :: fields) ((label.name, v) :: members) ((label.name, w) :: found)
        ((label.name, w) :: values)
  | omitted {label : Label} {s : σ} {w : Value} {fields : List (Label × σ)}
      {members found values : List (String × Value)} (h : label.absent = some w)
      (hrest : Each P fields members found values) :
      Each P ((label, s) :: fields) members found ((label.name, w) :: values)

namespace Each

variable {σ : Type} {P : σ → Value → Value → Prop} {fields : List (Label × σ)}
  {members found values : List (String × Value)}

theorem mem_names (h : Each P fields members found values) :
    ∀ m ∈ found, ∃ f ∈ fields, m.1 = f.1.name := by
  induction h with
  | nil => exact List.forall_mem_nil _
  | given h hrest ih =>
    intro m hm
    rcases List.mem_cons.1 hm with rfl | hm
    · exact ⟨_, List.mem_cons_self, rfl⟩
    · obtain ⟨f, hf, hname⟩ := ih m hm
      exact ⟨f, List.mem_cons_of_mem _ hf, hname⟩
  | omitted h hrest ih =>
    intro m hm
    obtain ⟨f, hf, hname⟩ := ih m hm
    exact ⟨f, List.mem_cons_of_mem _ hf, hname⟩

/-- Finding some fields does not change what was found for another name. -/
theorem lookup_frame (h : Each P fields members found values) {init : List (String × Value)} {key : String}
    (hkey : ∀ f ∈ fields, key ≠ f.1.name) :
    (found.reverse ++ init).lookup key = init.lookup key := by
  have hnone : found.reverse.lookup key = none := by
    rw [List.lookup_eq_none_iff]
    intro m hm
    obtain ⟨f, hf, hname⟩ := h.mem_names m (List.mem_reverse.1 hm)
    rw [hname]
    exact bne_iff_ne.2 (hkey f hf)
  rw [List.lookup_append, hnone, Option.none_or]

/-- **The fields in order.** What was found is brought into the order of the fields, and what stands for
a field that was left out is put in. -/
theorem orderFields (h : Each P fields members found values) (hfields : Separate fields)
    (init : List (String × Value)) (hinit : ∀ f ∈ fields, init.lookup f.1.name = none) :
    Shape.orderFields (found.reverse ++ init) (fields.map Prod.fst) = .ok values := by
  induction h generalizing init with
  | nil => rfl
  | @given label s v w fields members found values h hrest ih =>
    have hlookup : (found.reverse ++ (label.name, w) :: init).lookup label.name = some w := by
      rw [hrest.lookup_frame hfields.ne]
      exact List.lookup_cons_self
    have hothers := ih hfields.tail ((label.name, w) :: init) (hfields.lookup_later hinit)
    rw [List.reverse_cons, List.append_assoc, List.singleton_append, List.map_cons,
      Shape.orderFields, hlookup, hothers]
    rfl
  | @omitted label s w fields members found values h hrest ih =>
    have hlookup : (found.reverse ++ init).lookup label.name = none := by
      rw [hrest.lookup_frame hfields.ne]
      exact hinit _ List.mem_cons_self
    have hothers := ih hfields.tail init fun f hf => hinit f (List.mem_cons_of_mem _ hf)
    rw [List.map_cons, Shape.orderFields, hlookup, hothers, h]
    rfl

end Each

/-- A field's reader skips blanks, and reads all texts of a value alike. -/
def ReadsField (reader : Reader Value) (v w : Value) : Prop :=
  Skips reader ∧ ReadsAs reader v w

/-- **The members of a record**, one after the other. The fields before them have been found already. -/
theorem readFields_separated {fields done todo : List (Label × Reader Value)}
    {members found values : List (String × Value)} {first : Bool} {text : List Char}
    (hfields : Separate fields) (hsplit : fields = done ++ todo)
    (h : Each ReadsField todo members found values)
    (htext : Separated WrittenMember first members text) (init : List (String × Value))
    (hinit : ∀ f ∈ todo, init.lookup f.1.name = none) (fuel : Nat) (hfuel : text.length < fuel)
    (rest : List Char) :
    ∃ blank, Blank blank ∧ Shape.readFields fields fuel first init (text ++ '}' :: rest) =
      .ok (found.reverse ++ init, blank ++ '}' :: rest) := by
  induction h generalizing done init first text fuel with
  | nil =>
    obtain ⟨fuel, rfl⟩ : ∃ k, fuel = k + 1 := ⟨fuel - 1, by omega⟩
    cases htext with
    | nil hb => exact ⟨text, hb, by rw [Shape.readFields, nextKey_close first hb]; rfl⟩
  | @given label reader v w todo members found values hfield hrest ih =>
    obtain ⟨fuel, rfl⟩ : ∃ k, fuel = k + 1 := ⟨fuel - 1, by omega⟩
    obtain ⟨hskip, hvalue⟩ := hfield
    have htodo := hfields.of_append hsplit
    have hfind := hfields.find? hsplit
    have hlookup : init.lookup label.name = none := hinit _ List.mem_cons_self
    have hsplit' : fields = (done ++ [(label, reader)]) ++ todo := by
      rw [hsplit, List.append_assoc]
      rfl
    cases htext with
    | @cons _ blank text others _ _ hb hm hothers =>
      have hlength : others.length < fuel := by
        have hpos := hm.length_pos
        simp only [List.length_append] at hfuel
        omega
      obtain ⟨blank', hb', hread⟩ := ih hsplit' hothers ((label.name, w) :: init)
        (htodo.lookup_later hinit) fuel hlength
      obtain ⟨text', hkey, hmember⟩ := hm.reads hb hskip hvalue first
        (ends_separated hothers (Or.inr rfl) rest)
      have hcolon : readColon (':' :: text') = .ok text' := rfl
      refine ⟨blank', hb', ?_⟩
      simp only [List.append_assoc]
      rw [Shape.readFields, hkey]
      simp only [bind, Except.bind]
      rw [hfind]
      simp only
      rw [hlookup, if_neg (by simp), hcolon]
      simp only
      rw [hmember]
      simp only
      rw [hread, List.reverse_cons, List.append_assoc]
      rfl
  | @omitted label reader w todo members found values _ hrest ih =>
    have hsplit' : fields = (done ++ [(label, reader)]) ++ todo := by
      rw [hsplit, List.append_assoc]
      rfl
    exact ih hsplit' htext init (fun f hf => hinit f (List.mem_cons_of_mem _ hf)) fuel hfuel

/-- **A record**, behind its opening brace. -/
theorem readRecord_separated {name : String} {fields : List (Label × Reader Value)}
    {members found values : List (String × Value)} {text : List Char} (hfields : Separate fields)
    (h : Each ReadsField fields members found values)
    (htext : Separated WrittenMember true members text) (rest : List Char) :
    Shape.readRecord name fields ('{' :: (text ++ '}' :: rest)) = .ok (.object values, rest) := by
  obtain ⟨blank, hb, hread⟩ := readFields_separated hfields (List.nil_append _).symm h htext []
    (fun _ _ => rfl) ((text ++ '}' :: rest).length + 1) (by rw [List.length_append]; omega) rest
  have horder := h.orderFields hfields [] fun _ _ => rfl
  unfold Shape.readRecord
  rw [skipSpace_cons (by decide)]
  simp only [bind, Except.bind]
  rw [if_neg (by decide), if_pos trivial, hread]
  simp only
  rw [horder]
  simp only
  rw [endObject_close hb]

/-- **The members of a record's value**, one after the other. -/
theorem fitMembers_each {fields done todo : List (Label × (Value → Option Value))}
    {members found values : List (String × Value)} (hfields : Separate fields)
    (hsplit : fields = done ++ todo)
    (h : Each (fun fit v w => fit v = some w) todo members found values)
    (init : List (String × Value)) (hinit : ∀ f ∈ todo, init.lookup f.1.name = none) :
    Shape.fitMembers fields members init = some (found.reverse ++ init) := by
  induction h generalizing done init with
  | nil => rfl
  | @given label fit v w todo members found values hfit hrest ih =>
    have hlookup : init.lookup label.name = none := hinit _ List.mem_cons_self
    have hsplit' : fields = (done ++ [(label, fit)]) ++ todo := by
      rw [hsplit, List.append_assoc]
      rfl
    have hothers := ih hsplit' ((label.name, w) :: init)
      ((hfields.of_append hsplit).lookup_later hinit)
    rw [Shape.fitMembers, hfields.find? hsplit]
    simp only
    rw [hlookup, if_neg (by simp), hfit]
    simp only [bind, Option.bind]
    rw [hothers, List.reverse_cons, List.append_assoc]
    rfl
  | @omitted label fit w todo members found values _ hrest ih =>
    have hsplit' : fields = (done ++ [(label, fit)]) ++ todo := by
      rw [hsplit, List.append_assoc]
      rfl
    exact ih hsplit' init fun f hf => hinit f (List.mem_cons_of_mem _ hf)

/-! ## Shapes -/

theorem readersOf_eq_map (fields : List (Label × Shape)) :
    Shape.readersOf fields = fields.map fun f => (f.1, f.2.read) := by
  induction fields with
  | nil => rw [Shape.readersOf]; rfl
  | cons f fields ih => rw [Shape.readersOf, ih]; rfl

theorem fittersOf_eq_map (fields : List (Label × Shape)) :
    Shape.fittersOf fields = fields.map fun f => (f.1, f.2.fit?) := by
  induction fields with
  | nil => rw [Shape.fittersOf]; rfl
  | cons f fields ih => rw [Shape.fittersOf, ih]; rfl

/-- The readers of all shapes skip blanks first. -/
theorem Shape.read_skips (s : Shape) : Skips s.read := by
  intro text
  cases s <;>
    simp only [Shape.read, Shape.readWhole, Shape.readText, Shape.readKnown, Shape.readOptional,
      Shape.readList, Shape.readRecord, skipSpace_skipSpace]

/-- A whole number is read by a range that it lies in. -/
theorem readWhole_reads {width : Width} {n : Int} (h : width.holds n = true) :
    Reads (Shape.readWhole width) (numberChars (.whole n)) (.whole n) := by
  intro rest hrest
  unfold Shape.readWhole
  rcases readNumber_whole (Width.natAbs_le h) with ⟨t, hc, hread⟩ | ⟨c, t, hc, hdigit, hread⟩
  · rw [hc, List.cons_append, skipSpace_cons (by decide)]
    simp [hread rest hrest, h, bind, Except.bind]
  · have hminus : c ≠ '-' := ne_of_isDigit hdigit (by decide)
    rw [hc, List.cons_append, skipSpace_cons (isSpace_of_isDigit hdigit)]
    simp [hminus, hdigit, hread rest hrest, h, bind, Except.bind]

mutual

/-- **Every text of a value is read by its shape.** -/
theorem Shape.Forms.reads {s : Shape} {v w : Value} : s.Forms v w → ReadsAs s.read v w
  | .whole h => by
    rintro text ⟨⟩
    rw [Shape.read]
    exact readWhole_reads h
  | .string s => by
    rintro text ⟨⟩ rest -
    obtain ⟨t, ht, hread⟩ := readString_written s rest
    rw [Shape.read, ht]
    show (Shape.readText ('"' :: t)).map _ = _
    unfold Shape.readText
    rw [skipSpace_cons (by decide)]
    simp [hread, Except.map]
  | .keyword known => by
    rintro text ⟨⟩ rest -
    obtain ⟨t, ht, hread⟩ := readString_written known rest
    rw [Shape.read, ht]
    unfold Shape.readKnown
    rw [skipSpace_cons (by decide)]
    simp [hread, bind, Except.bind, Shape.checkWord]
  | .absent inner => by
    rintro text ⟨⟩ rest -
    rw [Shape.read]
    rfl
  | .present h hv => by
    intro text htext rest hrest
    have hread := h.reads text htext rest hrest
    obtain ⟨c, t, rfl, hspace, -, hnull, -⟩ := htext.starts
    rw [List.cons_append] at hread ⊢
    rw [Shape.read]
    unfold Shape.readOptional
    rw [skipSpace_cons hspace]
    simp only
    rw [if_neg (hnull hv), hread]
  | .list h => by
    intro text htext rest _
    cases htext with
    | array htext =>
      have hread := readArray_separated htext h.reads rest
      rw [List.cons_append, List.append_assoc, List.singleton_append, Shape.read]
      unfold Shape.readList
      rw [skipSpace_cons (by decide)]
      simp only [if_true, hread, Except.map]
  | .record hfields h => by
    intro text htext rest _
    cases htext with
    | object htext =>
      rw [List.cons_append, List.append_assoc, List.singleton_append, Shape.read]
      refine readRecord_separated ?_ h.reads htext rest
      rw [readersOf_eq_map]
      exact hfields.map _

theorem Shape.FormsAll.reads {s : Shape} {items values : List Value} :
    s.FormsAll items values → List.Forall₂ (ReadsAs s.read) items values
  | .nil => .nil
  | .cons h hrest => .cons h.reads hrest.reads

theorem Shape.FormsEach.reads {fields : List (Label × Shape)}
    {members found values : List (String × Value)} :
    Shape.FormsEach fields members found values →
      Each ReadsField (Shape.readersOf fields) members found values
  | .nil => by
    rw [Shape.readersOf]
    exact .nil
  | .given h hrest => by
    rw [Shape.readersOf]
    exact .given ⟨Shape.read_skips _, h.reads⟩ hrest.reads
  | .omitted h hrest => by
    rw [Shape.readersOf]
    exact .omitted h hrest.reads

end

mutual

/-- **The value itself is fitted to the same.** -/
theorem Shape.Forms.fit? {s : Shape} {v w : Value} : s.Forms v w → s.fit? v = some w
  | .whole h => by rw [Shape.fit?, if_pos h]
  | .string s => by rw [Shape.fit?]
  | .keyword known => by rw [Shape.fit?, if_pos rfl]
  | .absent inner => by rw [Shape.fit?]
  | .present (v := v) h hv => by
    have hfit := h.fit?
    cases v with
    | null => exact absurd rfl hv
    | _ => rw [Shape.fit?, hfit]; simp
  | .list h => by
    rw [Shape.fit?, h.fit?]
    rfl
  | .record hfields h => by
    have hfit := h.fit?
    rw [fittersOf_eq_map] at hfit
    have hsep := hfields.map Shape.fit?
    have horder := hfit.orderFields hsep [] fun _ _ => rfl
    rw [List.map_map] at horder
    rw [Shape.fit?, fittersOf_eq_map, fitMembers_each hsep (List.nil_append _).symm hfit []
      fun _ _ => rfl]
    simp only [bind, Option.bind]
    exact horder ▸ rfl

theorem Shape.FormsAll.fit? {s : Shape} {items values : List Value} :
    s.FormsAll items values → items.mapM s.fit? = some values
  | .nil => rfl
  | .cons h hrest => by
    rw [List.mapM_cons, h.fit?, hrest.fit?]
    rfl

theorem Shape.FormsEach.fit? {fields : List (Label × Shape)}
    {members found values : List (String × Value)} :
    Shape.FormsEach fields members found values →
      Each (fun fit v w => fit v = some w) (Shape.fittersOf fields) members found values
  | .nil => by
    rw [Shape.fittersOf]
    exact .nil
  | .given h hrest => by
    rw [Shape.fittersOf]
    exact .given h.fit? hrest.fit?
  | .omitted h hrest => by
    rw [Shape.fittersOf]
    exact .omitted h hrest.fit?

end

/-- **A whole text is read by its shape.** -/
theorem Shape.Forms.readDocument {s : Shape} {v w : Value} (h : s.Forms v w) {text : List Char}
    (htext : Written v text) : s.readDocument text = .ok w := by
  have hread := h.reads text htext [] ends_nil
  rw [List.append_nil] at hread
  unfold Shape.readDocument
  rw [hread]
  rfl

end CallIndex.Json
