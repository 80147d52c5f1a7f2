import CallIndex.Proofs.JsonShape
import Mathlib.Data.List.Pairwise

/-!
# Spellings of a record

A record may be written as an object, with its fields in any order, each under one of two names, and other
names between them; or as a list of its fields in their own order. Fields that may be left out may be left
out of the object, and at the end of the list.

* `Slot`, `Record`: the fields of a record as they may be written, and the values that write it.
* `fitMembers_fitted`, `fitPositions_fitted`: the fields are found in an object and in a list.
* `Record.fit?`: **every value that writes a record is fitted to the same**.
* `Shape.Repeats`: a value in which an object writes a field twice. `Repeats.fit?`: **it is not fitted**.
* `Shape.objectDepths`: how many lists may stand around an object. So a list of records that repeats a
  field is no such record either.
-/

namespace CallIndex.Json

/-! ## What may be written -/

/-- A field of a record as it may be written: its two names, its values, and whether it may be left
out. -/
structure Slot where
  name : String
  alternate : String
  Writes : Value → Prop
  MayOmit : Prop

/-- The members of an object that write a field. -/
def Slot.among (s : Slot) (members : List (String × Value)) : List (String × Value) :=
  members.filter fun m => m.1 = s.name || m.1 = s.alternate

/-- An object writes a field once, or it leaves it out. -/
def Slot.InObject (s : Slot) (members : List (String × Value)) : Prop :=
  (s.among members = [] ∧ s.MayOmit) ∨ ∃ m, s.among members = [m] ∧ s.Writes m.2

/-- A list writes the fields in their order, and it may end before those that may be left out. -/
inductive Positions : List Slot → List Value → Prop where
  | nil : Positions [] []
  | given {s : Slot} {slots : List Slot} {v : Value} {values : List Value} (h : s.Writes v)
      (hrest : Positions slots values) : Positions (s :: slots) (v :: values)
  | omitted {s : Slot} {slots : List Slot} (h : s.MayOmit) (hrest : Positions slots []) :
      Positions (s :: slots) []

/-- The values that write a record. An object may have members of other names. -/
inductive Record (slots : List Slot) : Value → Prop where
  | object {members : List (String × Value)} (h : ∀ s ∈ slots, s.InObject members) :
      Record slots (.object members)
  | array {items : List Value} (h : Positions slots items) : Record slots (.array items)

/-! ## Fitting a record -/

/-- The names that a field is read by. -/
def Label.names (l : Label) : List String := l.name :: l.alternate.toList

theorem Label.accepts_iff {l : Label} {key : String} : l.accepts key = true ↔ key ∈ l.names := by
  unfold Label.accepts Label.names
  cases l.alternate with
  | none => simp
  | some alternate => simp [eq_comm (a := key)]

/-- No name is that of two fields. -/
def Apart (labels : List Label) : Prop :=
  labels.Pairwise fun l k => ∀ key ∈ l.names, key ∉ k.names

instance (labels : List Label) : Decidable (Apart labels) :=
  inferInstanceAs (Decidable (labels.Pairwise _))

/-- The field that a name means. -/
def means {σ : Type} (fields : List (Label × σ)) (key : String) : Option (Label × σ) :=
  fields.find? fun field => field.1.accepts key

/-- A member of a name that means nothing is passed over. -/
theorem fitMembers_none {fields : List (Label × (Value → Option Value))} {key : String}
    (h : means fields key = none) (v : Value) (members found : List (String × Value)) :
    Shape.fitMembers fields ((key, v) :: members) found = Shape.fitMembers fields members found := by
  unfold means at h
  rw [Shape.fitMembers, h]

/-- A member of a field is fitted if the field has not been found before. -/
theorem fitMembers_some {fields : List (Label × (Value → Option Value))} {key : String}
    {f : Label × (Value → Option Value)} (h : means fields key = some f) (v : Value)
    (members found : List (String × Value)) :
    Shape.fitMembers fields ((key, v) :: members) found =
      if (found.lookup f.1.name).isSome then none
      else (f.2 v).bind fun w => Shape.fitMembers fields members ((f.1.name, w) :: found) := by
  unfold means at h
  rw [Shape.fitMembers, h]
  rfl

/-- A field, how its values are fitted, and what they are fitted to. -/
structure Fitted where
  label : Label
  fit : Value → Option Value
  value : Value

namespace Fitted

def field (e : Fitted) : Label × (Value → Option Value) := (e.label, e.fit)

def member (e : Fitted) : String × Value := (e.label.name, e.value)

/-- The members of an object that the field accepts. -/
def among (e : Fitted) (members : List (String × Value)) : List (String × Value) :=
  members.filter fun m => e.label.accepts m.1

theorem among_cons_pos {e : Fitted} {m : String × Value} (h : e.label.accepts m.1 = true)
    (members : List (String × Value)) : e.among (m :: members) = m :: e.among members :=
  List.filter_cons_of_pos h

theorem among_cons_neg {e : Fitted} {m : String × Value} (h : ¬ e.label.accepts m.1 = true)
    (members : List (String × Value)) : e.among (m :: members) = e.among members :=
  List.filter_cons_of_neg h

variable {entries : List Fitted}

/-- A name means one field at most. -/
theorem eq_of_accepts (hapart : Apart (entries.map label)) {e e' : Fitted} (he : e ∈ entries)
    (he' : e' ∈ entries) {key : String} (h : e.label.accepts key = true)
    (h' : e'.label.accepts key = true) : e' = e := by
  by_contra hne
  have hpairs : entries.Pairwise fun e e' => ∀ key ∈ e.label.names, key ∉ e'.label.names :=
    List.pairwise_map.1 hapart
  have hsymm : Std.Symm fun e e' : Fitted => ∀ key ∈ e.label.names, key ∉ e'.label.names :=
    ⟨fun _ _ h key hkey hkey' => h key hkey' hkey⟩
  exact hpairs.forall he' he hne key (Label.accepts_iff.1 h') (Label.accepts_iff.1 h)

/-- A field is found by each of its names. -/
theorem means_field (hapart : Apart (entries.map label)) {e : Fitted} (he : e ∈ entries)
    {key : String} (h : e.label.accepts key = true) :
    means (entries.map field) key = some e.field := by
  unfold means
  rw [List.find?_map]
  obtain ⟨e', hfind⟩ : ∃ e', entries.find? ((fun f => f.1.accepts key) ∘ field) = some e' :=
    Option.isSome_iff_exists.1 (List.find?_isSome.2 ⟨e, he, h⟩)
  have haccepts : ((fun f => f.1.accepts key) ∘ field) e' = true := List.find?_some hfind
  have hmem : e' ∈ entries := List.mem_of_find?_eq_some hfind
  rw [hfind, eq_of_accepts hapart he hmem h haccepts]
  rfl

/-- A member that writes a field is fitted, and the field is found. -/
theorem fitMembers_cons (hapart : Apart (entries.map label)) {e : Fitted} (he : e ∈ entries)
    {key : String} (h : e.label.accepts key = true) {v : Value} (hfit : e.fit v = some e.value)
    {found : List (String × Value)} (hfound : found.lookup e.label.name = none)
    (members : List (String × Value)) :
    Shape.fitMembers (entries.map field) ((key, v) :: members) found =
      Shape.fitMembers (entries.map field) members (e.member :: found) := by
  rw [fitMembers_some (means_field hapart he h)]
  simp only [field, hfound, hfit, Option.isSome_none, Bool.false_eq_true, if_false, Option.bind_some]
  rfl

/-- A member of another name is passed over. -/
theorem fitMembers_cons_unknown {key : String} (h : ∀ e ∈ entries, ¬ e.label.accepts key = true)
    (v : Value) (members found : List (String × Value)) :
    Shape.fitMembers (entries.map field) ((key, v) :: members) found =
      Shape.fitMembers (entries.map field) members found := by
  have hnone : means (entries.map field) key = none := by
    unfold means
    rw [List.find?_map, Option.map_eq_none_iff, List.find?_eq_none]
    exact h
  exact fitMembers_none hnone v members found

/-- Finding a field does not change what was found of the others. -/
theorem lookup_member_cons (hapart : Apart (entries.map label)) {e e' : Fitted} (he : e ∈ entries)
    (he' : e' ∈ entries) (hne : e' ≠ e) (found : List (String × Value)) :
    (e.member :: found).lookup e'.label.name = found.lookup e'.label.name := by
  have hname : (e'.label.name == e.label.name) = false := by
    rw [beq_eq_false_iff_ne]
    intro heq
    refine hne (eq_of_accepts hapart he he' (Label.accepts_iff.2 List.mem_cons_self)
      (Label.accepts_iff.2 ?_))
    rw [← heq]
    exact List.mem_cons_self
  rw [member, List.lookup_cons, hname]

end Fitted

open Fitted

/-- **The fields are found in an object**, whatever their order, and whatever else it has. Each of them is
written once or not at all. -/
theorem fitMembers_fitted {entries : List Fitted} (hapart : Apart (entries.map label))
    {members : List (String × Value)} (found : List (String × Value))
    (h : ∀ e ∈ entries, e.among members = [] ∨
      ∃ m, e.among members = [m] ∧ e.fit m.2 = some e.value ∧ found.lookup e.label.name = none) :
    ∃ out, Shape.fitMembers (entries.map field) members found = some out ∧
      ∀ e ∈ entries, out.lookup e.label.name =
        if e.among members = [] then found.lookup e.label.name else some e.value := by
  induction members generalizing found with
  | nil => exact ⟨found, rfl, fun e _ => rfl⟩
  | cons m members ih =>
    obtain ⟨key, v⟩ := m
    by_cases hkey : ∃ e ∈ entries, e.label.accepts key = true
    · obtain ⟨e, he, haccepts⟩ := hkey
      have hothers : ∀ e' ∈ entries, e' ≠ e → ¬ e'.label.accepts key = true :=
        fun e' he' hne h' => hne (eq_of_accepts hapart he he' haccepts h')
      -- this member is the only one that writes the field
      obtain ⟨hleft, hfit, hlookup⟩ : e.among members = [] ∧ e.fit v = some e.value ∧
          found.lookup e.label.name = none := by
        rcases h e he with hnone | ⟨m, hm, hfit, hlookup⟩
        · rw [among_cons_pos haccepts] at hnone
          cases hnone
        · rw [among_cons_pos haccepts] at hm
          obtain ⟨rfl, hleft⟩ := List.cons.inj hm
          exact ⟨hleft, hfit, hlookup⟩
      obtain ⟨out, hout, hvalues⟩ := ih (e.member :: found) fun e' he' => by
        by_cases heq : e' = e
        · subst heq
          exact Or.inl hleft
        · have hsame := h e' he'
          rw [among_cons_neg (hothers e' he' heq)] at hsame
          rw [lookup_member_cons hapart he he' heq]
          exact hsame
      refine ⟨out, ?_, fun e' he' => ?_⟩
      · rw [fitMembers_cons hapart he haccepts hfit hlookup, hout]
      · rw [hvalues e' he']
        by_cases heq : e' = e
        · subst heq
          rw [among_cons_pos haccepts, hleft, member, List.lookup_cons_self]
          simp
        · rw [among_cons_neg (hothers e' he' heq), lookup_member_cons hapart he he' heq]
    · have hothers : ∀ e ∈ entries, ¬ e.label.accepts key = true := fun e he h => hkey ⟨e, he, h⟩
      obtain ⟨out, hout, hvalues⟩ := ih found fun e he => by
        have hsame := h e he
        rw [among_cons_neg (hothers e he)] at hsame
        exact hsame
      refine ⟨out, ?_, fun e he => ?_⟩
      · rw [fitMembers_cons_unknown hothers, hout]
      · rw [hvalues e he, among_cons_neg (hothers e he)]

/-- The fields that were found, and those that were left out, in order. -/
theorem orderFields_fitted {entries : List Fitted} {out : List (String × Value)}
    (h : ∀ e ∈ entries, (out.lookup e.label.name).or e.label.absent = some e.value) :
    Shape.orderFields out (entries.map label) = .ok (entries.map member) := by
  induction entries with
  | nil => rfl
  | cons e entries ih =>
    obtain ⟨he, hrest⟩ := List.forall_mem_cons.1 h
    rw [List.map_cons, Shape.orderFields, he, ih hrest]
    rfl

/-- What is written of a field is fitted to one value, and so is a field that is left out. -/
structure Slot.Fits (s : Slot) (e : Fitted) : Prop where
  accepts (key : String) : e.label.accepts key = (key = s.name || key = s.alternate)
  fit {v : Value} : s.Writes v → e.fit v = some e.value
  absent : s.MayOmit → e.label.absent = some e.value
  cut : s.MayOmit → e.label.cut = some e.value

/-- **The fields are found in a list**, in their order. -/
theorem fitPositions_fitted {slots : List Slot} {entries : List Fitted} {items : List Value}
    (hslots : List.Forall₂ Slot.Fits slots entries) (h : Positions slots items) :
    Shape.fitPositions (entries.map field) items = some (entries.map member) := by
  induction h generalizing entries with
  | nil =>
    cases hslots
    rfl
  | given hwrites _ ih =>
    cases hslots with
    | cons hfield hrest =>
      rw [List.map_cons, field, Shape.fitPositions, hfield.fit hwrites, ih hrest]
      rfl
  | omitted homit _ ih =>
    cases hslots with
    | cons hfield hrest =>
      rw [List.map_cons, field, Shape.fitPositions, hfield.cut homit, ih hrest]
      rfl

/-- What an object writes of a field is fitted, or the field is left out of it. -/
theorem Slot.Fits.inObject {s : Slot} {e : Fitted} (hs : s.Fits e) {members : List (String × Value)}
    (h : s.InObject members) : (e.among members = [] ∧ e.label.absent = some e.value) ∨
      ∃ m, e.among members = [m] ∧ e.fit m.2 = some e.value := by
  have hamong : e.among members = s.among members := by
    unfold Fitted.among Slot.among
    congr
    funext m
    exact hs.accepts m.1
  rw [hamong]
  rcases h with ⟨hnone, homit⟩ | ⟨m, hm, hwrites⟩
  · exact Or.inl ⟨hnone, hs.absent homit⟩
  · exact Or.inr ⟨m, hm, hs.fit hwrites⟩

/-- **Every value that writes a record is fitted to the same.** -/
theorem Record.fit? {slots : List Slot} {name : String} {fields : List (Label × Shape)}
    {entries : List Fitted} (hfields : Shape.fittersOf fields = entries.map Fitted.field)
    (hapart : Apart (entries.map label)) (hslots : List.Forall₂ Slot.Fits slots entries) {v : Value}
    (h : Record slots v) :
    (Shape.record name fields).fit? v = some (.object (entries.map Fitted.member)) := by
  have hlabels : fields.map Prod.fst = entries.map label := by
    have hmap : (Shape.fittersOf fields).map Prod.fst = (entries.map Fitted.field).map Prod.fst := by
      rw [hfields]
    rw [fittersOf_eq_map, List.map_map, List.map_map] at hmap
    exact hmap
  cases h with
  | array h =>
    rw [Shape.fit?, hfields, fitPositions_fitted hslots h]
    rfl
  | @object members h =>
    have hentries : ∀ e ∈ entries, (e.among members = [] ∧ e.label.absent = some e.value) ∨
        ∃ m, e.among members = [m] ∧ e.fit m.2 = some e.value := by
      clear hfields hlabels hapart
      induction hslots with
      | nil => exact List.forall_mem_nil _
      | @cons s e slots entries hs _ ih =>
        obtain ⟨hfirst, hrest⟩ := List.forall_mem_cons.1 h
        exact List.forall_mem_cons.2 ⟨hs.inObject hfirst, ih hrest⟩
    obtain ⟨out, hout, hvalues⟩ := fitMembers_fitted hapart [] fun e he =>
      (hentries e he).imp And.left fun ⟨m, hm, hfit⟩ => ⟨m, hm, hfit, rfl⟩
    have horder : Shape.orderFields out (entries.map label) = .ok (entries.map Fitted.member) := by
      refine orderFields_fitted fun e he => ?_
      rw [hvalues e he]
      rcases hentries e he with ⟨hnone, habsent⟩ | ⟨m, hm, -⟩
      · rw [if_pos hnone, habsent]
        rfl
      · rw [if_neg (by simp [hm])]
        rfl
    rw [Shape.fit?, hfields, hlabels, hout]
    simp only [bind, Option.bind]
    rw [horder]
    rfl

/-! ## A field written twice -/

/-- A value in which an object at the place of a record writes one of its fields twice, be it under one
name or under both. -/
inductive Shape.Repeats : Shape → Value → Prop where
  | twice {name : String} {fields : List (Label × Shape)} {members : List (String × Value)}
      {m m' : String × Value} {field : Label × Shape} (hm : [m, m'].Sublist members)
      (h : means fields m.1 = some field) (h' : means fields m'.1 = some field) :
      Repeats (.record name fields) (.object members)
  | member {name : String} {fields : List (Label × Shape)} {members : List (String × Value)}
      {m : String × Value} {field : Label × Shape} (hm : m ∈ members)
      (hfield : means fields m.1 = some field) (h : Repeats field.2 m.2) :
      Repeats (.record name fields) (.object members)
  | position {name : String} {fields : List (Label × Shape)} {items : List Value} {i : Nat}
      {field : Label × Shape} {v : Value} (hfield : fields[i]? = some field) (hv : items[i]? = some v)
      (h : Repeats field.2 v) : Repeats (.record name fields) (.array items)
  | item {item : Shape} {items : List Value} {v : Value} (hv : v ∈ items) (h : Repeats item v) :
      Repeats (.list item) (.array items)
  | present {inner : Shape} {v : Value} (hv : v ≠ .null) (h : Repeats inner v) :
      Repeats (.optional inner) v

theorem means_fittersOf (fields : List (Label × Shape)) (key : String) :
    means (Shape.fittersOf fields) key = (means fields key).map fun f => (f.1, f.2.fit?) := by
  unfold means
  rw [fittersOf_eq_map, List.find?_map]
  rfl

/-- **Members that are fitted** write no field that was found before, nor one field twice, and each of
them is fitted. -/
theorem fitMembers_once {fields : List (Label × (Value → Option Value))}
    {members found out : List (String × Value)} (h : Shape.fitMembers fields members found = some out) :
    (∀ m ∈ members, ∀ f, means fields m.1 = some f →
      found.lookup f.1.name = none ∧ (f.2 m.2).isSome = true) ∧
    ∀ m m', [m, m'].Sublist members → ∀ f, means fields m.1 = some f → means fields m'.1 ≠ some f := by
  induction members generalizing found with
  | nil => exact ⟨List.forall_mem_nil _, fun _ _ hm => nomatch hm⟩
  | cons m members ih =>
    obtain ⟨key, v⟩ := m
    cases hmeans : means fields key with
    | none =>
      rw [fitMembers_none hmeans] at h
      obtain ⟨hall, hpairs⟩ := ih h
      refine ⟨List.forall_mem_cons.2 ⟨?_, hall⟩, ?_⟩
      · intro f hf
        rw [hmeans] at hf
        cases hf
      · intro m m' hm f hf
        cases hm with
        | cons _ hm => exact hpairs m m' hm f hf
        | cons_cons _ hm =>
          rw [hmeans] at hf
          cases hf
    | some field =>
      obtain ⟨label, fit⟩ := field
      rw [fitMembers_some hmeans] at h
      split at h
      · cases h
      rename_i hlookup
      obtain ⟨w, hw, h⟩ := Option.bind_eq_some_iff.1 h
      obtain ⟨hall, hpairs⟩ := ih h
      -- what is found later has another name
      have hlater : ∀ m ∈ members, ∀ f, means fields m.1 = some f →
          f.1.name ≠ label.name ∧ found.lookup f.1.name = none := by
        intro m hm f hf
        have hnone := (hall m hm f hf).1
        rw [List.lookup_cons] at hnone
        cases heq : f.1.name == label.name with
        | true => simp [heq] at hnone
        | false =>
          rw [heq] at hnone
          exact ⟨beq_eq_false_iff_ne.1 heq, hnone⟩
      refine ⟨List.forall_mem_cons.2 ⟨?_, ?_⟩, ?_⟩
      · intro f hf
        obtain rfl := Option.some.inj (hmeans.symm.trans hf)
        exact ⟨Option.not_isSome_iff_eq_none.1 hlookup, Option.isSome_iff_exists.2 ⟨w, hw⟩⟩
      · exact fun m hm f hf => ⟨(hlater m hm f hf).2, (hall m hm f hf).2⟩
      · intro m m' hm f hf
        cases hm with
        | cons _ hm => exact hpairs m m' hm f hf
        | cons_cons _ hm =>
          obtain rfl := Option.some.inj (hmeans.symm.trans hf)
          intro hf'
          exact (hlater m' (List.singleton_sublist.1 hm) _ hf').1 rfl

/-- The fields that are fitted from a list are all fitted. -/
theorem fitPositions_isSome {fields : List (Label × (Value → Option Value))} {items : List Value}
    {members : List (String × Value)} (h : Shape.fitPositions fields items = some members) {i : Nat}
    {f : Label × (Value → Option Value)} (hf : fields[i]? = some f) {v : Value}
    (hv : items[i]? = some v) : (f.2 v).isSome = true := by
  induction fields generalizing items members i with
  | nil => cases hf
  | cons field fields ih =>
    cases items with
    | nil => cases hv
    | cons w items =>
      rw [Shape.fitPositions] at h
      simp only [Option.bind_eq_bind] at h
      obtain ⟨x, hx, h⟩ := Option.bind_eq_some_iff.1 h
      obtain ⟨xs, hxs, -⟩ := Option.bind_eq_some_iff.1 h
      cases i with
      | zero =>
        cases hf
        cases hv
        rw [hx]
        rfl
      | succ i => exact ih hxs hf hv

/-- A list is mapped if each of its items is. -/
theorem mapM_eq_some_iff {α β : Type} {f : α → Option β} {as : List α} {bs : List β} :
    as.mapM f = some bs ↔ List.Forall₂ (fun a b => f a = some b) as bs := by
  induction as generalizing bs with
  | nil => simp [List.forall₂_nil_left_iff, eq_comm]
  | cons a as ih =>
    rw [List.mapM_cons, List.forall₂_cons_left_iff]
    simp only [Option.bind_eq_bind, Option.bind_eq_some_iff, ih, Option.pure_def, Option.some.injEq]
    constructor
    · rintro ⟨b, hb, bs', hbs, rfl⟩
      exact ⟨b, bs', hb, hbs, rfl⟩
    · rintro ⟨b, bs', hb, hbs, rfl⟩
      exact ⟨b, hb, bs', hbs, rfl⟩

theorem isSome_mapM_iff {α β : Type} {f : α → Option β} {as : List α} :
    (as.mapM f).isSome = true ↔ ∀ a ∈ as, (f a).isSome = true := by
  induction as with
  | nil => simp
  | cons a as ih =>
    rw [List.forall_mem_cons, ← ih, List.mapM_cons]
    cases f a <;> cases as.mapM f <;> simp

namespace Shape

/-- **A value that writes a field twice is not fitted.** -/
theorem Repeats.fit? {s : Shape} {v : Value} (h : s.Repeats v) : s.fit? v = none := by
  induction h with
  | @twice name fields members m m' field hm h h' =>
    cases hmembers : fitMembers (fittersOf fields) members [] with
    | none =>
      rw [Shape.fit?, hmembers]
      rfl
    | some out =>
      refine ((fitMembers_once hmembers).2 m m' hm (field.1, field.2.fit?) ?_ ?_).elim <;>
        rw [means_fittersOf]
      · rw [h]
        rfl
      · rw [h']
        rfl
  | @member name fields members m field hm hfield _ ih =>
    cases hmembers : fitMembers (fittersOf fields) members [] with
    | none =>
      rw [Shape.fit?, hmembers]
      rfl
    | some out =>
      have hmeans : means (fittersOf fields) m.1 = some (field.1, field.2.fit?) := by
        rw [means_fittersOf, hfield]
        rfl
      have hsome := ((fitMembers_once hmembers).1 m hm _ hmeans).2
      simp only [ih] at hsome
      cases hsome
  | @position name fields items i field v hfield hv _ ih =>
    cases hpositions : fitPositions (fittersOf fields) items with
    | none =>
      rw [Shape.fit?, hpositions]
      rfl
    | some members =>
      have hfit : (fittersOf fields)[i]? = some (field.1, field.2.fit?) := by
        rw [fittersOf_eq_map, List.getElem?_map, hfield]
        rfl
      have hsome := fitPositions_isSome hpositions hfit hv
      simp only [ih] at hsome
      cases hsome
  | @item item items v hv _ ih =>
    cases hitems : items.mapM item.fit? with
    | none =>
      rw [Shape.fit?, hitems]
      rfl
    | some ws =>
      have hsome := isSome_mapM_iff.1 (by rw [hitems]; rfl) v hv
      rw [ih] at hsome
      cases hsome
  | present hv _ ih =>
    rw [Shape.fit?]
    · exact ih
    · exact hv

end Shape

/-! ## How many lists are around an object -/

/-- There is an object inside so many lists. -/
def Value.ObjectAt : Nat → Value → Prop
  | 0, .object _ => True
  | n + 1, .array items => ∃ v ∈ items, ObjectAt n v
  | _, _ => False

namespace Shape

mutual

/-- How many lists may be around an object in a value of a shape. -/
def objectDepths : Shape → List Nat
  | whole _ | string => []
  | keyword _ => [0]
  | optional inner => inner.objectDepths
  | list item => item.objectDepths.map (· + 1)
  | record _ fields => 0 :: (positionDepths fields).map (· + 1)

/-- The same for the fields of a record that is written as a list. -/
def positionDepths : List (Label × Shape) → List Nat
  | [] => []
  | (_, shape) :: rest => shape.objectDepths ++ positionDepths rest

end

theorem mem_positionDepths {fields : List (Label × Shape)} {i : Nat} {field : Label × Shape}
    (hfield : fields[i]? = some field) {n : Nat} (hn : n ∈ field.2.objectDepths) :
    n ∈ positionDepths fields := by
  induction fields generalizing i with
  | nil => cases hfield
  | cons f fields ih =>
    rw [positionDepths, List.mem_append]
    cases i with
    | zero =>
      cases hfield
      exact Or.inl hn
    | succ i => exact Or.inr (ih hfield)

/-- A field is repeated in an object at one of these depths. -/
theorem Repeats.objectAt {s : Shape} {v : Value} (h : s.Repeats v) :
    ∃ n ∈ s.objectDepths, v.ObjectAt n := by
  induction h with
  | twice | member =>
    rw [objectDepths]
    exact ⟨0, List.mem_cons_self, trivial⟩
  | position hfield hv _ ih =>
    obtain ⟨n, hn, hobject⟩ := ih
    rw [objectDepths]
    exact ⟨n + 1, List.mem_cons_of_mem _ (List.mem_map.2 ⟨n, mem_positionDepths hfield hn, rfl⟩),
      _, List.mem_of_getElem? hv, hobject⟩
  | item hv _ ih =>
    obtain ⟨n, hn, hobject⟩ := ih
    rw [objectDepths]
    exact ⟨n + 1, List.mem_map.2 ⟨n, hn, rfl⟩, _, hv, hobject⟩
  | present _ _ ih =>
    rw [objectDepths]
    exact ih

mutual

/-- **A value that is fitted has its objects at these depths only.** -/
theorem objectAt_mem : (s : Shape) → {v w : Value} → {n : Nat} → s.fit? v = some w → v.ObjectAt n →
    n ∈ s.objectDepths
  | whole width, v, w, n, h, hobject => by
    cases v <;> cases n <;> simp [fit?, Value.ObjectAt] at h hobject
  | string, v, w, n, h, hobject => by
    cases v <;> cases n <;> simp [fit?, Value.ObjectAt] at h hobject
  | keyword known, v, w, n, h, hobject => by
    cases v <;> cases n <;> simp [fit?, Value.ObjectAt, objectDepths] at h hobject ⊢
  | optional inner, v, w, n, h, hobject => by
    cases v with
    | null => cases n <;> cases hobject
    | _ =>
      rw [fit?] at h
      · rw [objectDepths]
        exact objectAt_mem inner h hobject
      · simp
  | list item, v, w, n, h, hobject => by
    cases v with
    | array items =>
      cases n with
      | zero => cases hobject
      | succ n =>
        obtain ⟨v, hv, hobject⟩ := hobject
        rw [fit?, Option.map_eq_some_iff] at h
        obtain ⟨ws, hws, -⟩ := h
        have hsome := isSome_mapM_iff.1 (by rw [hws]; rfl) v hv
        obtain ⟨w, hw⟩ := Option.isSome_iff_exists.1 hsome
        rw [objectDepths]
        exact List.mem_map.2 ⟨n, objectAt_mem item hw hobject, rfl⟩
    | _ => simp [fit?] at h
  | record name fields, v, w, n, h, hobject => by
    rw [objectDepths]
    cases n with
    | zero => exact List.mem_cons_self
    | succ n =>
      cases v with
      | array items =>
        rw [fit?, Option.map_eq_some_iff] at h
        obtain ⟨members, hmembers, -⟩ := h
        exact List.mem_cons_of_mem _
          (List.mem_map.2 ⟨n, positions_objectAt fields hmembers hobject, rfl⟩)
      | _ => cases hobject

theorem positions_objectAt : (fields : List (Label × Shape)) → {items : List Value} →
    {members : List (String × Value)} → {n : Nat} →
    fitPositions (fittersOf fields) items = some members → (∃ v ∈ items, v.ObjectAt n) →
    n ∈ positionDepths fields
  | [], items, members, n, h, hobject => by
    obtain ⟨v, hv, -⟩ := hobject
    cases items with
    | nil => cases hv
    | cons => simp [fittersOf, fitPositions] at h
  | (label, shape) :: rest, items, members, n, h, hobject => by
    obtain ⟨v, hv, hobject⟩ := hobject
    cases items with
    | nil => cases hv
    | cons x items =>
      rw [fittersOf, fitPositions] at h
      simp only [Option.bind_eq_bind] at h
      obtain ⟨y, hy, h⟩ := Option.bind_eq_some_iff.1 h
      obtain ⟨ys, hys, -⟩ := Option.bind_eq_some_iff.1 h
      rw [positionDepths, List.mem_append]
      rcases List.mem_cons.1 hv with rfl | hv
      · exact Or.inl (objectAt_mem shape hy hobject)
      · exact Or.inr (positions_objectAt rest hys ⟨v, hv, hobject⟩)

end

/-- A value that repeats a field of a shape is not fitted to a shape with its objects at other depths. -/
theorem Repeats.fit?_apart {s t : Shape} {v : Value} (h : s.Repeats v)
    (hapart : ∀ n ∈ s.objectDepths, n ∉ t.objectDepths) : t.fit? v = none := by
  obtain ⟨n, hn, hobject⟩ := h.objectAt
  cases hfit : t.fit? v with
  | none => rfl
  | some w => exact (hapart n hn (objectAt_mem t hfit hobject)).elim

end Shape

end CallIndex.Json
