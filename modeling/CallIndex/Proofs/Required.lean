import CallIndex.Batch.Json
import CallIndex.Index.Ingest
import Mathlib.Data.List.Basic

/-!
# Required fields

A batch is refused for the first of its required fields that is blank. The order of the fields is
project, document, the classes by index, the methods by index, then the caller and the callee of each
call by index.

* `Field.path_names`, `Field.path_inj`: **the path of a field leads to it**, and to no other field.
* `Batch.Valid`: no required field is blank.
* `Field.Before` and `Batch.BlankFirst`: the order of the fields, and a blank field with no blank one
  before it.
* `Batch.validate_eq_ok_iff`, `Batch.validate_eq_error_iff`: a batch is checked as these two say.
* `Index.validateAll_eq_ok_iff`, `Index.validateAll_of_first`, `Index.exists_first_invalid`: a list
  of batches is refused for its first batch that is not valid.
-/

namespace CallIndex

namespace Field

/-- The place of a field in the order of checks: its section, and its place there. -/
def rank : Field → Nat × Nat
  | project => (0, 0)
  | document => (1, 0)
  | className i => (2, i)
  | methodSignature i => (3, i)
  | caller i => (4, 2 * i)
  | callee i => (4, 2 * i + 1)
  | signature => (5, 0)

/-- A field is checked before another. -/
def Before (f g : Field) : Prop :=
  f.rank.1 < g.rank.1 ∨ (f.rank.1 = g.rank.1 ∧ f.rank.2 < g.rank.2)

theorem Before.asymm {f g : Field} (h : f.Before g) : ¬ g.Before f := by
  unfold Before at *
  omega

end Field

namespace Batch

/-- The text of a required field, if the batch has that field. -/
def value? (b : Batch) : Field → Option String
  | .project => some b.project
  | .document => some b.document
  | .className i => b.classes[i]?
  | .methodSignature i => b.methods[i]?.map MethodInput.signature
  | .caller i => b.calls[i]?.map CallInput.caller
  | .callee i => b.calls[i]?.map CallInput.callee
  | .signature => none

end Batch

/-! ## Paths -/

namespace Field

/-- A step into a value: to a member of an object, or to an item of an array. -/
inductive Step where
  | member (name : String)
  | item (i : Nat)

/-- Where steps into a value lead. -/
def follow : List Step → Json.Value → Option Json.Value
  | [], v => some v
  | .member name :: steps, .object members => (members.lookup name).bind (follow steps)
  | .item i :: steps, .array items => items[i]?.bind (follow steps)
  | _ :: _, _ => none

/-- A step as it is written behind others. -/
def Step.text : Step → String
  | member name => "." ++ name
  | item i => "[" ++ toString i ++ "]"

/-- Steps that begin with an item of an encoded list go on in what is encoded there. -/
theorem follow_item {α : Type} [Json.Encode α] (xs : List α) (i : Nat) (steps : List Step) :
    follow (.item i :: steps) (Json.encode xs) = xs[i]?.bind fun a => follow steps (Json.encode a) := by
  show (xs.map Json.encode)[i]?.bind (follow steps) = _
  rw [List.getElem?_map, Option.bind_map]
  rfl

/-- **The path of a field leads to its text** in the JSON form of each batch that has the field. -/
theorem path_names (f : Field) : ∃ (name : String) (steps : List Step),
    f.path = name ++ String.join (steps.map Step.text) ∧
      ∀ b : Batch, follow (.member name :: steps) (Json.encode b) = (b.value? f).map .string := by
  cases f with
  | project => exact ⟨"project", [], by decide +kernel, fun b => rfl⟩
  | document => exact ⟨"document", [], by decide +kernel, fun b => rfl⟩
  | signature => exact ⟨"signature", [], by decide +kernel, fun b => rfl⟩
  | className i =>
    refine ⟨"classes", [.item i], String.ext (by simp [path, Step.text]), fun b => ?_⟩
    refine (follow_item b.classes i []).trans ?_
    rw [Batch.value?]
    cases b.classes[i]? <;> rfl
  | methodSignature i =>
    refine ⟨"methods", [.item i, .member "signature"], String.ext (by simp [path, Step.text]),
      fun b => ?_⟩
    refine (follow_item b.methods i [.member "signature"]).trans ?_
    rw [Batch.value?]
    cases b.methods[i]? <;> rfl
  | caller i =>
    refine ⟨"calls", [.item i, .member "caller"], String.ext (by simp [path, Step.text]),
      fun b => ?_⟩
    refine (follow_item b.calls i [.member "caller"]).trans ?_
    rw [Batch.value?]
    cases b.calls[i]? <;> rfl
  | callee i =>
    refine ⟨"calls", [.item i, .member "callee"], String.ext (by simp [path, Step.text]),
      fun b => ?_⟩
    refine (follow_item b.calls i [.member "callee"]).trans ?_
    rw [Batch.value?]
    cases b.calls[i]? <;> rfl

theorem toString_inj {i j : Nat} (h : toString i = toString j) : i = j := by
  rw [Nat.toString_eq_repr, Nat.toString_eq_repr] at h
  have hdigits := congrArg String.toList h
  rw [Nat.toList_repr, Nat.toList_repr] at hdigits
  rw [← Nat.ofDigitChars_ten_toDigits (n := i), hdigits, Nat.ofDigitChars_ten_toDigits]

/-- **Different fields have different paths.** -/
theorem path_inj {f g : Field} (h : f.path = g.path) : f = g := by
  -- the section and the end of a path tell which kind of field it is of
  have hstart : f.path.toList.take 2 = g.path.toList.take 2 := by rw [h]
  have hend : f.path.toList.getLast? = g.path.toList.getLast? := by rw [h]
  cases f <;> cases g <;> simp [path, List.getLast?_append, List.getLast?_cons] at hstart hend
  case className.className | methodSignature.methodSignature | caller.caller | callee.callee =>
    unfold path at h
    dsimp only at h
    rw [String.append_left_inj, String.append_right_inj] at h
    rw [toString_inj h]
  all_goals rfl

end Field

/-! ## Checks -/

namespace Batch

/-- No required field is blank. -/
structure Valid (b : Batch) : Prop where
  project : isBlank b.project = false
  document : isBlank b.document = false
  classes : ∀ c ∈ b.classes, isBlank c = false
  methods : ∀ m ∈ b.methods, isBlank m.signature = false
  calls : ∀ c ∈ b.calls, isBlank c.caller = false ∧ isBlank c.callee = false

/-- A required field that is blank, with no blank one before it. -/
structure BlankFirst (b : Batch) (f : Field) : Prop where
  blank : ∃ v, b.value? f = some v ∧ isBlank v = true
  first : ∀ g v, g.Before f → b.value? g = some v → isBlank v = false

variable {b : Batch}

/-- The checked entries are the fields of the batch with their texts. -/
theorem mem_required {f : Field} {v : String} : (f, v) ∈ b.required ↔ b.value? f = some v := by
  unfold required
  simp only [List.mem_append, List.mem_cons, List.mem_map, List.mem_flatMap, Prod.exists,
    List.mem_zipIdx_iff_getElem?, Prod.mk.injEq, List.not_mem_nil, or_false]
  cases f with
  | project => simp [value?, eq_comm]
  | document => simp [value?, eq_comm]
  | className i => simp [value?]
  | methodSignature i => simp [value?]
  | caller i => cases h : b.calls[i]? <;> simp [value?, h, eq_comm]
  | callee i => cases h : b.calls[i]? <;> simp [value?, h, eq_comm]
  | signature => simp [value?]

theorem pairwise_zipIdx {α : Type} (l : List α) : l.zipIdx.Pairwise fun p q => p.2 < q.2 := by
  rw [List.pairwise_iff_getElem]
  intro i j hi hj hij
  simpa using hij

/-- The checked entries stand in the order of their fields. -/
theorem required_sorted (b : Batch) : b.required.Pairwise fun p q => p.1.Before q.1 := by
  unfold required
  simp only [List.pairwise_append, List.pairwise_map, List.pairwise_flatMap]
  -- in a section the index decides, between two sections the section
  refine ⟨⟨⟨?start, (pairwise_zipIdx b.classes).imp fun h => Or.inr ⟨rfl, h⟩, ?toClasses⟩,
    (pairwise_zipIdx b.methods).imp fun h => Or.inr ⟨rfl, h⟩, ?toMethods⟩,
    ⟨?oneCall, (pairwise_zipIdx b.calls).imp ?twoCalls⟩, ?toCalls⟩
  case start => simp [Field.Before, Field.rank]
  case oneCall =>
    intro p _
    simp [Field.Before, Field.rank]
  case twoCalls =>
    rintro ⟨c, i⟩ ⟨d, j⟩ h r hr s hs
    have hij : i < j := h
    simp only [List.mem_cons, List.not_mem_nil, or_false] at hr hs
    rcases hr with rfl | rfl <;> rcases hs with rfl | rfl <;>
      refine Or.inr ⟨rfl, ?_⟩ <;> simp only [Field.rank] <;> omega
  all_goals
    intro p hp q hq
    simp only [List.mem_append, List.mem_cons, List.mem_map, List.mem_flatMap, Prod.exists,
      List.not_mem_nil, or_false] at hp hq
    left
    grind [Field.rank]

/-- In a sorted list, the entry that is found is the least one. -/
theorem find?_sorted_iff {α : Type} {R : α → α → Prop} {l : List α} {p : α → Bool} {e : α}
    (hsorted : l.Pairwise R) (hasymm : ∀ a b, R a b → ¬ R b a) :
    l.find? p = some e ↔ e ∈ l ∧ p e = true ∧ ∀ e' ∈ l, R e' e → p e' = false := by
  constructor
  · intro hfind
    obtain ⟨he, before, after, rfl, hbefore⟩ := List.find?_eq_some_iff_append.1 hfind
    rw [List.pairwise_append, List.pairwise_cons] at hsorted
    refine ⟨by simp, he, ?_⟩
    intro e' he' hlt
    rcases List.mem_append.1 he' with h | h
    · simpa using hbefore e' h
    · -- what stands behind the found entry is not before it
      rcases List.mem_cons.1 h with rfl | h
      · exact absurd hlt (hasymm _ _ hlt)
      · exact absurd hlt (hasymm _ _ (hsorted.2.1.1 e' h))
  · rintro ⟨hmem, he, hfirst⟩
    cases hfind : l.find? p with
    | none =>
      have := List.find?_eq_none.1 hfind e hmem
      exact absurd he this
    | some g =>
      obtain ⟨hg, before, after, rfl, hbefore⟩ := List.find?_eq_some_iff_append.1 hfind
      rw [List.pairwise_append, List.pairwise_cons] at hsorted
      rcases List.mem_append.1 hmem with h | h
      · have := hbefore e h
        simp [he] at this
      · rcases List.mem_cons.1 h with rfl | h
        · rfl
        · have := hfirst g (by simp) (hsorted.2.1.1 e h)
          rw [this] at hg
          cases hg

/-- **A batch is refused for its first blank field.** -/
theorem firstBlank_eq_some_iff {f : Field} : b.firstBlank = some f ↔ b.BlankFirst f := by
  have hasymm : ∀ p q : Field × String, p.1.Before q.1 → ¬ q.1.Before p.1 :=
    fun _ _ h => h.asymm
  unfold firstBlank
  rw [Option.map_eq_some_iff]
  constructor
  · rintro ⟨⟨g, v⟩, hfind, rfl⟩
    obtain ⟨hmem, hv, hfirst⟩ := (find?_sorted_iff b.required_sorted hasymm).1 hfind
    refine ⟨⟨v, mem_required.1 hmem, hv⟩, ?_⟩
    intro g' v' hlt hv'
    exact hfirst (g', v') (mem_required.2 hv') hlt
  · rintro ⟨⟨v, hv, hblank⟩, hfirst⟩
    refine ⟨(f, v), (find?_sorted_iff b.required_sorted hasymm).2 ?_, rfl⟩
    refine ⟨mem_required.2 hv, hblank, ?_⟩
    rintro ⟨g, w⟩ hg hlt
    exact hfirst g w hlt (mem_required.1 hg)

theorem firstBlank_eq_none_iff : b.firstBlank = none ↔ b.Valid := by
  unfold firstBlank
  rw [Option.map_eq_none_iff, List.find?_eq_none]
  constructor
  · intro h
    have hv : ∀ f v, b.value? f = some v → isBlank v = false := by
      intro f v hfv
      simpa using h (f, v) (mem_required.2 hfv)
    refine ⟨hv .project _ rfl, hv .document _ rfl, ?_, ?_, ?_⟩
    · intro c hc
      obtain ⟨i, hi⟩ := List.mem_iff_getElem?.1 hc
      exact hv (.className i) c hi
    · intro m hm
      obtain ⟨i, hi⟩ := List.mem_iff_getElem?.1 hm
      exact hv (.methodSignature i) m.signature (by simp [value?, hi])
    · intro c hc
      obtain ⟨i, hi⟩ := List.mem_iff_getElem?.1 hc
      exact ⟨hv (.caller i) c.caller (by simp [value?, hi]),
        hv (.callee i) c.callee (by simp [value?, hi])⟩
  · rintro ⟨hp, hd, hc, hm, hcalls⟩ ⟨f, v⟩ hfv
    have hv := mem_required.1 hfv
    simp only [Bool.not_eq_true]
    cases f with
    | project => cases hv; exact hp
    | document => cases hv; exact hd
    | className i => exact hc v (List.mem_of_getElem? hv)
    | methodSignature i =>
      obtain ⟨m, hi, rfl⟩ := Option.map_eq_some_iff.1 hv
      exact hm m (List.mem_of_getElem? hi)
    | caller i =>
      obtain ⟨c, hi, rfl⟩ := Option.map_eq_some_iff.1 hv
      exact (hcalls c (List.mem_of_getElem? hi)).1
    | callee i =>
      obtain ⟨c, hi, rfl⟩ := Option.map_eq_some_iff.1 hv
      exact (hcalls c (List.mem_of_getElem? hi)).2
    | signature => cases hv

theorem validate_eq_ok_iff : b.validate = .ok () ↔ b.Valid := by
  rw [← firstBlank_eq_none_iff]
  unfold validate
  cases b.firstBlank <;> simp

theorem validate_eq_error_iff {e : Error} :
    b.validate = .error e ↔ ∃ f, b.BlankFirst f ∧ e = .required f := by
  simp only [← firstBlank_eq_some_iff]
  unfold validate
  cases b.firstBlank <;> simp [eq_comm]

end Batch

namespace Index

theorem validateAll_eq_ok_iff {bs : List Batch} :
    validateAll bs = .ok () ↔ ∀ b ∈ bs, b.Valid := by
  induction bs with
  | nil => simp [validateAll]
  | cons b bs ih =>
    rw [List.forall_mem_cons, ← ih, ← Batch.validate_eq_ok_iff, validateAll]
    cases b.validate <;> simp [bind, Except.bind]

/-- The first batch with a blank field refuses the list. -/
theorem validateAll_of_first {before after : List Batch} {b : Batch} {f : Field}
    (hbefore : ∀ a ∈ before, a.Valid) (hb : b.BlankFirst f) :
    validateAll (before ++ b :: after) = .error (.required f) := by
  induction before with
  | nil =>
    rw [List.nil_append, validateAll, Batch.validate_eq_error_iff.2 ⟨f, hb, rfl⟩]
    rfl
  | cons a before ih =>
    have ha := Batch.validate_eq_ok_iff.2 (hbefore a List.mem_cons_self)
    rw [List.cons_append, validateAll, ha]
    exact ih fun a' ha' => hbefore a' (List.mem_cons_of_mem _ ha')

/-- A list with a batch that is not valid has a first one, which has a first blank field. -/
theorem exists_first_invalid {bs : List Batch} (h : ∃ b ∈ bs, ¬ b.Valid) :
    ∃ before b after f, bs = before ++ b :: after ∧ (∀ a ∈ before, a.Valid) ∧ b.BlankFirst f := by
  induction bs with
  | nil => obtain ⟨b, hb, -⟩ := h; cases hb
  | cons a bs ih =>
    by_cases ha : a.Valid
    · obtain ⟨b, hb, hbad⟩ := h
      rcases List.mem_cons.1 hb with rfl | hb
      · exact absurd ha hbad
      obtain ⟨before, b, after, f, hsplit, hvalid, hf⟩ := ih ⟨b, hb, hbad⟩
      exact ⟨a :: before, b, after, f, by rw [hsplit]; rfl, List.forall_mem_cons.2 ⟨ha, hvalid⟩, hf⟩
    · cases hv : a.firstBlank with
      | none => exact absurd (Batch.firstBlank_eq_none_iff.1 hv) ha
      | some f =>
        exact ⟨[], a, bs, f, rfl, by simp, Batch.firstBlank_eq_some_iff.1 hv⟩

end Index

end CallIndex
