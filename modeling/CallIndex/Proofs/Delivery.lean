import Mathlib.Data.List.Basic
import CallIndex.Proofs.Interleaving

/-!
# What a channel delivers

The invariant of all interleavings of a producer and a consumer. It has three parts, which each step keeps
together: the channel itself, the place of the producer in its script, the place of the consumer.

* `offered`, `accepted`, `refused`, `received`, `answered`: what the events say of the fragments.
* `Channel`, `ProducerAt`, `ConsumerAt`: the three parts. `Consistent`: all of them.
* `Consistent.fires`, `consistent_of_run`: **each step keeps them, so they hold in all runs.**
* `Consistent.step_or_leaves`: the two ends never wait for each other.
* `Delivered`, `Run.delivered`, `run_delivers`: **the fragments arrive in order, none is lost unless the
  consumer closes the channel first, and the answer of the producer arrives.**
* `collect_outcome`: what a consumer gets that collects does not depend on the interleaving.
* `run_leaves`: the run in which the consumer goes first goes on until it has left.
-/

namespace CallIndex.Stream

/-! ## What the events say of the fragments -/

/-- The fragment that is offered in an event. -/
@[simp]
def Event.offered? : Event → Option String
  | emitted fragment _ => some fragment
  | _ => none

/-- The fragment that goes into the channel in an event. -/
@[simp]
def Event.accepted? : Event → Option String
  | emitted fragment true => some fragment
  | _ => none

/-- The fragment that is refused in an event. -/
@[simp]
def Event.refused? : Event → Option String
  | emitted fragment false => some fragment
  | _ => none

/-- The fragment that the consumer gets in an event. -/
@[simp]
def Event.received? : Event → Option String
  | read fragment => fragment
  | taken fragment => some fragment
  | _ => none

/-- The answer of a single read. -/
@[simp]
def Event.answer? : Event → Option (Option String)
  | read fragment => some fragment
  | _ => none

/-- What the producer offered, oldest first. -/
def offered (es : List Event) : List String := es.filterMap Event.offered?

/-- What went into the channel, oldest first. -/
def accepted (es : List Event) : List String := es.filterMap Event.accepted?

/-- What was refused, oldest first. -/
def refused (es : List Event) : List String := es.filterMap Event.refused?

/-- What the consumer got, oldest first. -/
def received (es : List Event) : List String := es.filterMap Event.received?

/-- What the single reads gave, oldest first. -/
def answered (es : List Event) : List (Option String) := es.filterMap Event.answer?

theorem filterMap_concat {α β : Type} (f : α → Option β) (l : List α) (a : α) :
    (l ++ [a]).filterMap f = l.filterMap f ++ (f a).toList := by
  cases h : f a <;> simp [h]

@[simp]
theorem offered_concat (es : List Event) (e : Event) :
    offered (es ++ [e]) = offered es ++ e.offered?.toList := filterMap_concat _ _ _

@[simp]
theorem accepted_concat (es : List Event) (e : Event) :
    accepted (es ++ [e]) = accepted es ++ e.accepted?.toList := filterMap_concat _ _ _

@[simp]
theorem refused_concat (es : List Event) (e : Event) :
    refused (es ++ [e]) = refused es ++ e.refused?.toList := filterMap_concat _ _ _

@[simp]
theorem received_concat (es : List Event) (e : Event) :
    received (es ++ [e]) = received es ++ e.received?.toList := filterMap_concat _ _ _

@[simp]
theorem answered_concat (es : List Event) (e : Event) :
    answered (es ++ [e]) = answered es ++ e.answer?.toList := filterMap_concat _ _ _

/-- The answers of some single reads: the fragments in order, then none. -/
def answers (fragments : List String) (reads : Nat) : List (Option String) :=
  (List.range reads).map (fragments[·]?)

theorem answers_succ (fragments : List String) (reads : Nat) :
    answers fragments (reads + 1) = answers fragments reads ++ [fragments[reads]?] := by
  simp [answers, List.range_succ]

/-- The fragment after the first ones. -/
theorem getElem?_of_take_append_prefix {l m : List String} {a : String} {k : Nat}
    (h : l.take k ++ a :: m <+: l) : l[k]? = some a := by
  obtain ⟨n, hn⟩ := h
  have hlen := congrArg List.length hn
  simp only [List.length_append, List.length_take, List.length_cons] at hlen
  have hk : (l.take k).length = k := by
    rw [List.length_take]
    omega
  rw [← hn, List.append_assoc, List.getElem?_append_right (by omega), hk]
  simp

/-! ## The invariant -/

variable {script : Script} {capacity reads : Nat} {leave : Leave} {s t u : State} {e : Event}
  {es fs : List Event} {ending : Ending}

/-- The consumer has not closed the channel yet. -/
@[simp]
def Consumer.present : Consumer → Bool
  | reading _ | collecting _ => true
  | waiting _ | left _ => false

/-- A channel after some events. While it is open, what was accepted and not received waits in it. -/
structure Channel (capacity : Nat) (es : List Event) (t : State) : Prop where
  capacity : t.capacity = max capacity 1
  offered : offered es = accepted es ++ refused es
  attached : t.attached = t.consumer.present
  opened : t.attached = true → .closed ∉ es ∧ refused es = [] ∧
    accepted es = received es ++ t.buffer ∧ t.buffer.length ≤ t.capacity
  closed : t.attached = false → .closed ∈ es ∧
    ∃ lost, accepted es = received es ++ lost ∧ lost.length ≤ t.capacity

/-- The place of a producer in its script, after some events. -/
inductive ProducerAt (script : Script) (es : List Event) : Producer → Prop where
  | running {rest : List String} (h : script.fragments = offered es ++ rest) :
      ProducerAt script es (.running rest)
  | returned (h : script.fragments = offered es) (hr : .returned ∈ es) :
      ProducerAt script es (.ended script.ending)
  | stopped {ending : Ending} (h : offered es <+: script.fragments) (hr : refused es ≠ [])
      (hnext : ∀ rest, script.reaction.next rest = .ended ending) :
      ProducerAt script es (.ended ending)

/-- The text of a consumer that closed the channel. One that collects has all that the single reads had
left. -/
def Leave.text (fragments : List String) (reads : Nat) : Leave → Option String
  | collect => some (String.join (fragments.drop reads))
  | finish => none

/-- What is known when a consumer has closed the channel. One that collects does so only after the
producer came to the end of its script. -/
structure Gone (script : Script) (reads : Nat) (leave : Leave) (es : List Event) (producer : Producer)
    (text : Option String) : Prop where
  text : text = leave.text script.fragments reads
  collected : leave = .collect → producer = .ended script.ending ∧ .returned ∈ es

/-- The place of a consumer, after some events. -/
inductive ConsumerAt (script : Script) (reads : Nat) (leave : Leave) (es : List Event) (t : State) :
    Consumer → Prop where
  | reading {left : Nat} (hleft : t.reads.length + left = reads)
      (h : received es = script.fragments.take t.reads.length) :
      ConsumerAt script reads leave es t (.reading left)
  | collecting {rest : List String} (hleft : t.reads.length = reads) (hl : leave = .collect)
      (h : received es = script.fragments.take reads ++ rest) :
      ConsumerAt script reads leave es t (.collecting (String.join rest))
  | waiting {text : Option String} (hleft : t.reads.length = reads)
      (h : Gone script reads leave es t.producer text) :
      ConsumerAt script reads leave es t (.waiting text)
  | left {text : Option String} {ending : Ending} (hleft : t.reads.length = reads)
      (h : Gone script reads leave es t.producer text) (hp : t.producer = .ended ending) :
      ConsumerAt script reads leave es t (.left (result text ending))

/-- What holds after each step of a run. -/
structure Consistent (script : Script) (capacity reads : Nat) (leave : Leave) (es : List Event)
    (t : State) : Prop where
  channel : Channel capacity es t
  producer : ProducerAt script es t.producer
  consumer : ConsumerAt script reads leave es t t.consumer
  reaction : t.reaction = script.reaction
  ending : t.ending = script.ending
  leave : t.leave = leave
  answered : t.reads = answered es
  answers : t.reads = answers script.fragments t.reads.length

/-! ## Each part is kept -/

/-- The settings of a channel stay. -/
theorem Fires.settings (h : Fires s e t) :
    t.reaction = s.reaction ∧ t.ending = s.ending ∧ t.leave = s.leave := by
  cases h <;> exact ⟨rfl, rfl, rfl⟩

/-- A producer that has ended stays so. -/
theorem Fires.ended (h : Fires s e t) (hs : s.producer = .ended ending) :
    t.producer = .ended ending := by
  cases h with
  | returned hp | refused hp | accepted hp =>
    rw [hs] at hp
    cases hp
  | _ => exact hs

/-- Each step keeps what the channel holds. -/
theorem Channel.fires (h : Channel capacity es s) (hf : Fires s e t) :
    Channel capacity (es ++ [e]) t := by
  obtain ⟨hcapacity, hoffered, hattached, hopened, hclosed⟩ := h
  have hopen (hc : s.consumer.present = true) := hopened (hattached.trans hc)
  cases hf with
  | returned hp =>
    exact ⟨hcapacity, by simpa using hoffered, hattached, by simpa using hopened,
      by simpa using hclosed⟩
  | refused hp ha =>
    exact ⟨hcapacity, by simp [hoffered], hattached, by simp [ha], by simpa using hclosed⟩
  | accepted hp ha hroom =>
    obtain ⟨hes, hrefused, haccepted, -⟩ := hopened ha
    refine ⟨hcapacity, by simp [hoffered, hrefused], hattached, fun _ => ?_, by simp [ha]⟩
    exact ⟨by simpa using hes, by simpa using hrefused, by simp [haccepted],
      by simp; omega⟩
  | read hc hb | taken hc hb =>
    obtain ⟨hes, hrefused, haccepted, hlen⟩ := hopen (by simp [hc])
    simp only [hb, List.length_cons] at haccepted hlen
    refine ⟨hcapacity, by simpa using hoffered, by simpa [hc] using hattached, fun _ => ?_,
      by simp [hattached, hc]⟩
    exact ⟨by simpa using hes, by simpa using hrefused, by simp [haccepted], by simp; omega⟩
  | readNone hc | collecting hc | left hc =>
    exact ⟨hcapacity, by simpa using hoffered, by simpa [hc] using hattached, by simpa using hopened,
      by simpa using hclosed⟩
  | drained hc | finished hc =>
    obtain ⟨-, -, haccepted, hlen⟩ := hopen (by simp [hc])
    refine ⟨hcapacity, by simpa using hoffered, rfl, by simp [State.close], fun _ => ?_⟩
    exact ⟨by simp, s.buffer, by simpa using haccepted, hlen⟩

theorem ProducerAt.prefix (h : ProducerAt script es s.producer) :
    offered es <+: script.fragments := by
  cases hp : s.producer <;> rw [hp] at h
  · cases h with
    | running h => exact ⟨_, h.symm⟩
  · cases h with
    | returned h => exact h ▸ List.prefix_refl _
    | stopped h => exact h

/-- In an open channel a producer ends only with its script, and everything it offered was accepted. -/
theorem Channel.returned (h : Channel capacity es s) (hp : ProducerAt script es (.ended ending))
    (ha : s.attached = true) :
    ending = script.ending ∧ .returned ∈ es ∧ script.fragments = received es ++ s.buffer := by
  obtain ⟨-, hrefused, haccepted, -⟩ := h.opened ha
  cases hp with
  | returned hfragments hr =>
    refine ⟨rfl, hr, ?_⟩
    rw [hfragments, h.offered, hrefused, List.append_nil, haccepted]
  | stopped _ hr => exact absurd hrefused hr

/-- Each step keeps the place of the producer. -/
theorem ProducerAt.fires (h : ProducerAt script es s.producer)
    (hreaction : s.reaction = script.reaction) (hending : s.ending = script.ending)
    (hf : Fires s e t) : ProducerAt script (es ++ [e]) t.producer := by
  -- an event of the consumer is not seen in what was offered
  have frame (ho : offered (es ++ [e]) = offered es) (hr : refused (es ++ [e]) = refused es) :
      ProducerAt script (es ++ [e]) s.producer := by
    cases hp : s.producer <;> rw [hp] at h
    · obtain ⟨h⟩ := h
      exact .running (by rw [ho, h])
    · cases h with
      | returned h hret => exact .returned (by rw [ho, h]) (by simp [hret])
      | stopped h href hnext => exact .stopped (by rwa [ho]) (by rwa [hr]) hnext
  cases hf with
  | returned hp =>
    rw [hp] at h
    obtain ⟨h⟩ := h
    rw [hending]
    exact .returned (by simpa using h) (by simp)
  | @refused fragment rest hp =>
    rw [hp] at h
    obtain ⟨h⟩ := h
    have hprefix : offered (es ++ [.emitted fragment false]) <+: script.fragments :=
      ⟨rest, by simp [h]⟩
    rw [hreaction]
    cases hr : script.reaction with
    | stop => exact .stopped hprefix (by simp) (by simp [hr, Reaction.next])
    | fail error => exact .stopped hprefix (by simp) (by simp [hr, Reaction.next])
    | goOn => exact .running (by simpa using h)
  | accepted hp =>
    rw [hp] at h
    obtain ⟨h⟩ := h
    exact .running (by simpa using h)
  | _ => exact frame (by simp) (by simp)

/-- What a consumer has after closing stays. -/
theorem Gone.fires {text : Option String} (h : Gone script reads leave es s.producer text)
    (hf : Fires s e t) : Gone script reads leave (es ++ [e]) t.producer text := by
  refine ⟨h.text, fun hl => ?_⟩
  obtain ⟨hp, hr⟩ := h.collected hl
  exact ⟨hf.ended hp, by simp [hr]⟩

/-- The next fragment that is read is the next one of the script. -/
theorem Consistent.getElem?_fragments {left : Nat} {fragment : String} {rest : List String}
    (h : Consistent script capacity reads leave es s) (hc : s.consumer = .reading left)
    (hb : s.buffer = fragment :: rest) : script.fragments[s.reads.length]? = some fragment := by
  obtain ⟨-, hrefused, haccepted, -⟩ := h.channel.opened (by simp [h.channel.attached, hc])
  have hoffered := h.channel.offered
  rw [hrefused, List.append_nil, haccepted, hb] at hoffered
  have hconsumer := h.consumer
  rw [hc] at hconsumer
  obtain ⟨-, hreceived⟩ := hconsumer
  apply getElem?_of_take_append_prefix (m := rest)
  rw [← hreceived, ← hoffered]
  exact h.producer.prefix

/-- A read that gives none comes after the last fragment was read. -/
theorem Consistent.all_read {left : Nat} (h : Consistent script capacity reads leave es s)
    (hc : s.consumer = .reading left) (hb : s.buffer = []) (hp : s.producer = .ended ending) :
    .returned ∈ es ∧ received es = script.fragments ∧ script.fragments.length ≤ s.reads.length := by
  obtain ⟨-, hr, hall⟩ := h.channel.returned (hp ▸ h.producer) (by simp [h.channel.attached, hc])
  rw [hb, List.append_nil] at hall
  have hconsumer := h.consumer
  rw [hc] at hconsumer
  obtain ⟨-, hreceived⟩ := hconsumer
  have hlen := congrArg List.length (hall.trans hreceived)
  rw [List.length_take] at hlen
  exact ⟨hr, hall.symm, by omega⟩

/-- Each step keeps the place of the consumer. -/
theorem Consistent.consumer_fires (h : Consistent script capacity reads leave es s) (hf : Fires s e t) :
    ConsumerAt script reads leave (es ++ [e]) t t.consumer := by
  have hconsumer := h.consumer
  have hpresent := h.channel.attached
  -- an event of the producer is not seen in what was received
  have frame (hr : received (es ++ [e]) = received es) (hreads : t.reads = s.reads) :
      ConsumerAt script reads leave (es ++ [e]) t s.consumer := by
    generalize s.consumer = c at hconsumer
    cases hconsumer with
    | reading hleft hreceived => exact .reading (by rwa [hreads]) (by rw [hr, hreceived, hreads])
    | collecting hleft hl hreceived => exact .collecting (by rwa [hreads]) hl (by rw [hr, hreceived])
    | waiting hleft hgone => exact .waiting (by rwa [hreads]) (hgone.fires hf)
    | left hleft hgone hp => exact .left (by rwa [hreads]) (hgone.fires hf) (hf.ended hp)
  cases hf with
  | returned | refused | accepted => exact frame (by simp) rfl
  | @read left fragment rest hc hb =>
    have hnext := h.getElem?_fragments hc hb
    rw [hc] at hconsumer
    obtain ⟨hleft, hreceived⟩ := hconsumer
    refine .reading (by simp; omega) ?_
    simp [hreceived, List.take_add_one, hnext]
  | readNone hc hb hp =>
    obtain ⟨-, hall, hlen⟩ := h.all_read hc hb hp
    rw [hc] at hconsumer
    obtain ⟨hleft, -⟩ := hconsumer
    refine .reading (by simp; omega) ?_
    simp [hall, List.take_of_length_le, Nat.le_succ_of_le hlen]
  | collecting hc hl =>
    rw [hc] at hconsumer
    obtain ⟨hleft, hreceived⟩ := hconsumer
    have hleft : s.reads.length = reads := hleft
    rw [← String.join_nil]
    exact .collecting hleft (h.leave ▸ hl) (by simpa [hleft] using hreceived)
  | @taken text fragment rest hc hb =>
    rw [hc] at hconsumer
    cases hconsumer with
    | @collecting taken hleft hl hreceived =>
      have hjoin : String.join taken ++ fragment = String.join (taken ++ [fragment]) := by simp
      rw [hjoin]
      exact .collecting hleft hl (by simp [hreceived])
  | drained hc hb hp =>
    obtain ⟨rfl, hr, hall⟩ := h.channel.returned (hp ▸ h.producer) (by simp [hpresent, hc])
    rw [hc] at hconsumer
    cases hconsumer with
    | @collecting taken hleft hl hreceived =>
      -- what was collected is the rest of the script
      have hrest : taken = script.fragments.drop reads := by
        rw [hb, List.append_nil, hreceived] at hall
        nth_rewrite 1 [← List.take_append_drop reads script.fragments] at hall
        exact (List.append_cancel_left hall).symm
      exact .waiting hleft ⟨by rw [hrest, hl]; rfl, fun _ => ⟨hp, by simp [hr]⟩⟩
  | finished hc hl =>
    rw [hc] at hconsumer
    obtain ⟨hleft, -⟩ := hconsumer
    have hl : leave = .finish := h.leave ▸ hl
    exact .waiting hleft ⟨by rw [hl]; rfl, by simp [hl]⟩
  | left hc hp =>
    rw [hc] at hconsumer
    cases hconsumer with
    | waiting hleft hgone => exact .left hleft (hgone.fires (.left hc hp)) hp

/-- Each step keeps what the single reads gave. -/
theorem Consistent.reads_fires (h : Consistent script capacity reads leave es s) (hf : Fires s e t) :
    t.reads = Stream.answered (es ++ [e]) ∧
      t.reads = Stream.answers script.fragments t.reads.length := by
  cases hf with
  | read hc hb =>
    refine ⟨by simp [h.answered], ?_⟩
    rw [List.length_append, List.length_singleton, answers_succ, ← h.answers,
      h.getElem?_fragments hc hb]
  | readNone hc hb hp =>
    refine ⟨by simp [h.answered], ?_⟩
    obtain ⟨-, -, hlen⟩ := h.all_read hc hb hp
    rw [List.length_append, List.length_singleton, answers_succ, ← h.answers,
      List.getElem?_eq_none hlen]
  | _ => exact ⟨by simpa [State.close] using h.answered, h.answers⟩

/-- **Each step keeps the invariant.** -/
theorem Consistent.fires (h : Consistent script capacity reads leave es s) (hf : Fires s e t) :
    Consistent script capacity reads leave (es ++ [e]) t := by
  obtain ⟨hreaction, hending, hleave⟩ := hf.settings
  obtain ⟨hanswered, hanswers⟩ := h.reads_fires hf
  exact ⟨h.channel.fires hf, h.producer.fires h.reaction h.ending hf, h.consumer_fires hf,
    hreaction.trans h.reaction, hending.trans h.ending, hleave.trans h.leave, hanswered, hanswers⟩

theorem Consistent.run (h : Consistent script capacity reads leave es s) (hrun : Run s fs t) :
    Consistent script capacity reads leave (es ++ fs) t := by
  induction hrun generalizing es with
  | nil => simpa using h
  | cons hf _ ih => simpa using ih (h.fires hf)

variable {generator : Generator} {prompt : Prompt}

/-- **It holds in all runs.** -/
theorem consistent_of_run (hrun : Run (start generator prompt capacity reads leave) es t) :
    Consistent (generator prompt) capacity reads leave es t := by
  have h : Consistent (generator prompt) capacity reads leave []
      (start generator prompt capacity reads leave) :=
    { channel := ⟨rfl, rfl, rfl, fun _ => ⟨by simp, rfl, rfl, by simp [start]⟩, by simp [start]⟩
      producer := .running rfl
      consumer := .reading (by simp [start]) (by simp [start, received])
      reaction := rfl
      ending := rfl
      leave := rfl
      answered := rfl
      answers := rfl }
  simpa using h.run hrun

/-! ## What follows at any point of a run -/

/-- What was accepted and not received is still in the channel, or was lost when it was closed. -/
theorem Channel.exists_unread (h : Channel capacity es s) :
    ∃ unread, accepted es = received es ++ unread ∧ unread.length ≤ max capacity 1 := by
  rw [← h.capacity]
  cases ha : s.attached with
  | true => exact ⟨s.buffer, (h.opened ha).2.2⟩
  | false => exact (h.closed ha).2

/-- A read gives none only when the producer has ended and everything was read. -/
theorem Consistent.exhausted (h : Consistent script capacity reads leave es s)
    (hf : Fires s (.read none) t) : .returned ∈ es ∧ received es = script.fragments := by
  cases hf with
  | readNone hc hb hp =>
    obtain ⟨hr, hall, -⟩ := h.all_read hc hb hp
    exact ⟨hr, hall⟩

/-- The producer is told that a fragment was accepted if and only if the channel is still open. -/
theorem Consistent.emitted {fragment : String} {ok : Bool}
    (h : Consistent script capacity reads leave es s) (hf : Fires s (.emitted fragment ok) t) :
    ok = true ↔ .closed ∉ es := by
  cases hf with
  | refused _ ha => simp [(h.channel.closed ha).1]
  | accepted _ ha => simp [(h.channel.opened ha).1]

/-- When the channel is closed nothing is received. -/
theorem Fires.gone (h : Fires s e t) (hs : s.consumer.present = false) :
    e.received? = none ∧ t.consumer.present = false := by
  cases h with
  | returned | refused | accepted => exact ⟨rfl, hs⟩
  | left => exact ⟨rfl, rfl⟩
  | read hc | readNone hc | collecting hc | taken hc | drained hc | finished hc => simp [hc] at hs

theorem Fires.closed (h : Fires s .closed t) : t.consumer.present = false := by
  cases h with
  | drained | finished => rfl

theorem Run.received_eq_nil (h : Run s es t) (hs : s.consumer.present = false) :
    received es = [] := by
  induction h with
  | nil => rfl
  | cons hf _ ih =>
    obtain ⟨he, ht⟩ := hf.gone hs
    rw [received, List.filterMap_cons_none he]
    exact ih ht

/-- A consumer that has not closed the channel has a step when there is something to read, or when the
producer has ended. -/
theorem exists_step_of_present (hs : s.consumer.present = true)
    (h : s.buffer ≠ [] ∨ ∃ ending, s.producer = .ended ending) : ∃ t, Step s t := by
  have drained (hb : s.buffer = []) : ∃ ending, s.producer = .ended ending := h.resolve_left (· hb)
  cases hc : s.consumer with
  | reading left =>
    cases left with
    | zero =>
      cases hl : s.leave with
      | collect => exact ⟨_, (Fires.collecting hc hl).step⟩
      | finish => exact ⟨_, (Fires.finished hc hl).step⟩
    | succ left =>
      cases hb : s.buffer with
      | cons fragment rest => exact ⟨_, (Fires.read hc hb).step⟩
      | nil =>
        obtain ⟨ending, hp⟩ := drained hb
        exact ⟨_, (Fires.readNone hc hb hp).step⟩
  | collecting text =>
    cases hb : s.buffer with
    | cons fragment rest => exact ⟨_, (Fires.taken hc hb).step⟩
    | nil =>
      obtain ⟨ending, hp⟩ := drained hb
      exact ⟨_, (Fires.drained hc hb hp).step⟩
  | waiting text | left result => simp [hc] at hs

/-- **The two ends never wait for each other**: one of them has a step until the consumer has left. -/
theorem Consistent.step_or_leaves (h : Consistent script capacity reads leave es s) :
    (∃ t, Step s t) ∨ ∃ r, s.outcome? = some r := by
  cases hp : s.producer with
  | running fragments =>
    left
    cases fragments with
    | nil => exact ⟨_, (Fires.returned hp).step⟩
    | cons fragment rest =>
      cases ha : s.attached with
      | false => exact ⟨_, (Fires.refused hp ha).step⟩
      | true =>
        by_cases hroom : s.buffer.length < s.capacity
        · exact ⟨_, (Fires.accepted hp ha hroom).step⟩
        · -- a full channel has something to read
          have hcapacity := h.channel.capacity
          have hb : s.buffer ≠ [] := List.ne_nil_of_length_pos (by omega)
          exact exists_step_of_present (h.channel.attached ▸ ha) (.inl hb)
  | ended ending =>
    cases hc : s.consumer with
    | reading | collecting =>
      exact .inl (exists_step_of_present (by simp [hc]) (.inr ⟨ending, hp⟩))
    | waiting text => exact .inl ⟨_, (Fires.left hc hp).step⟩
    | left result => exact .inr ⟨result, by simp [State.outcome?, hc]⟩

/-- How a producer ended: with its script, or at a refused fragment. -/
theorem Consistent.ended (h : Consistent script capacity reads leave es s)
    (hp : s.producer = .ended ending) :
    (.returned ∈ es ∧ ending = script.ending ∧ offered es = script.fragments) ∨
      (refused es ≠ [] ∧ ∀ rest, script.reaction.next rest = .ended ending) := by
  have hproducer := h.producer
  rw [hp] at hproducer
  cases hproducer with
  | returned hall hr => exact .inl ⟨hr, rfl, hall.symm⟩
  | stopped _ hr hnext => exact .inr ⟨hr, hnext⟩

/-- What a consumer got that has left: the answer of the producer to the text it had. -/
theorem Consistent.outcome {r : Except Error (Option String)}
    (h : Consistent script capacity reads leave es s) (hr : s.outcome? = some r) :
    s.reads.length = reads ∧ ∃ ending, s.producer = .ended ending ∧
      (leave = .collect → .returned ∈ es ∧ ending = script.ending) ∧
      r = result (leave.text script.fragments reads) ending := by
  have hconsumer := h.consumer
  unfold State.outcome? at hr
  split at hr
  next hc =>
    rw [hc] at hconsumer
    cases hr
    cases hconsumer with
    | left hleft hgone hp =>
      refine ⟨hleft, _, hp, fun hl => ?_, by rw [hgone.text]⟩
      obtain ⟨hended, hreturned⟩ := hgone.collected hl
      rw [hp] at hended
      cases hended
      exact ⟨hreturned, rfl⟩
  next => cases hr

/-! ## Delivery -/

/-- What a run of a channel up to any of its states guarantees. -/
structure Delivered (script : Script) (capacity reads : Nat) (leave : Leave) (es : List Event)
    (t : State) : Prop where
  /-- The producer offers its fragments in order. -/
  offers : offered es <+: script.fragments
  /-- The refused ones come after all accepted ones. -/
  refusals : offered es = accepted es ++ refused es
  /-- What is received is the first part of what was accepted. -/
  order : received es <+: accepted es
  /-- The single reads give the fragments from the first on, then none. -/
  single : t.reads = answered es ∧ t.reads = answers script.fragments t.reads.length
  /-- The channel never holds more than it has room for. -/
  unread : (accepted es).length ≤ (received es).length + max capacity 1
  /-- A read gives none only when the producer has ended and everything was read. -/
  exhausted : ∀ before after, es = before ++ .read none :: after →
    .returned ∈ before ∧ received before = script.fragments
  /-- A fragment is accepted while the channel is open, and refused once it is closed. -/
  emitted : ∀ before fragment ok after, es = before ++ .emitted fragment ok :: after →
    (ok = true ↔ .closed ∉ before)
  /-- After closing nothing is received. -/
  silent : ∀ before after, es = before ++ .closed :: after → received after = []
  /-- A producer ends with its script, or as it does when a fragment is refused. -/
  ended : ∀ ending, t.producer = .ended ending →
    (.returned ∈ es ∧ ending = script.ending ∧ offered es = script.fragments) ∨
      (refused es ≠ [] ∧ ∀ rest, script.reaction.next rest = .ended ending)
  /-- A consumer that has left got the error of the producer, if there is one. Else it got, if it
  collected, all fragments of the script that the single reads had left. -/
  outcome : ∀ r, t.outcome? = some r → t.reads.length = reads ∧ ∃ ending,
    t.producer = .ended ending ∧
    (leave = .collect → .returned ∈ es ∧ ending = script.ending) ∧
    (ending = .finished → r = .ok (leave.text script.fragments reads)) ∧
    (∀ error, ending = .failed error → r = .error error) ∧
    (∀ message, ending = .panicked message → r = .error (panicError message))
  /-- One of the ends has a step until the consumer has left. -/
  live : (∃ u, Step t u) ∨ ∃ r, t.outcome? = some r
  /-- No run is longer. -/
  short : es.length ≤ 2 * script.fragments.length + reads + 4

/-- What a run of a channel guarantees at each of its states. -/
theorem Run.delivered (h : Run (start generator prompt capacity reads leave) es t) :
    Delivered (generator prompt) capacity reads leave es t := by
  have ht := consistent_of_run h
  obtain ⟨unread, haccepted, hunread⟩ := ht.channel.exists_unread
  refine
    { offers := ht.producer.prefix
      refusals := ht.channel.offered
      order := ⟨unread, haccepted.symm⟩
      single := ⟨ht.answered, ht.answers⟩
      unread := by
        rw [haccepted, List.length_append]
        omega
      exhausted := ?_
      emitted := ?_
      silent := ?_
      ended := fun _ => ht.ended
      outcome := ?_
      live := ht.step_or_leaves
      short := h.length_le }
  -- an event is judged in the state in which it happened
  · rintro before after rfl
    obtain ⟨_, _, hbefore, hf, -⟩ := h.split
    exact (consistent_of_run hbefore).exhausted hf
  · rintro before fragment ok after rfl
    obtain ⟨_, _, hbefore, hf, -⟩ := h.split
    exact (consistent_of_run hbefore).emitted hf
  · rintro before after rfl
    obtain ⟨_, _, -, hf, hafter⟩ := h.split
    exact hafter.received_eq_nil hf.closed
  · intro r hr
    obtain ⟨hleft, ending, hp, hcollect, rfl⟩ := ht.outcome hr
    refine ⟨hleft, ending, hp, hcollect, ?_, ?_, ?_⟩
    · rintro rfl
      rfl
    · rintro error rfl
      rfl
    · rintro message rfl
      rfl

/-- **Order is kept and nothing is cut off silently**, whatever the script, the capacity, the number of
single reads and the way to leave. The states that steps of the two ends lead to, in any interleaving,
are those at the end of a run, and each run delivers. -/
theorem run_delivers (generator : Generator) (prompt : Prompt) (capacity reads : Nat) (leave : Leave) :
    (∀ t, Relation.ReflTransGen Step (start generator prompt capacity reads leave) t ↔
      ∃ es, Run (start generator prompt capacity reads leave) es t) ∧
    ∀ es t, Run (start generator prompt capacity reads leave) es t →
      Delivered (generator prompt) capacity reads leave es t :=
  ⟨fun _ => reflTransGen_step_iff, fun _ _ h => h.delivered⟩

/-- A consumer reads one of three fragments and closes the channel. The third one is refused, the
producer goes on and panics, and the consumer learns of it. -/
theorem run_delivers_panic :
    let script : Script := ⟨["a", "b", "c"], .goOn, .panicked "boom"⟩
    let es : List Event := [.emitted "a" true, .read (some "a"), .emitted "b" true, .closed,
      .emitted "c" false, .returned, .left]
    ∃ t, Run (start (fun _ => script) ⟨"system", "user"⟩ 0 1 .finish) es t ∧
      t.outcome? = some (.error (.generation
        "generator task failed: task N panicked with message \"boom\"")) ∧
      Delivered script 0 1 .finish es t := by
  intro script es
  have hrun := Run.cons (s := start (fun _ => script) ⟨"system", "user"⟩ 0 1 .finish)
    (.accepted rfl rfl (by decide)) <| .cons (.read rfl rfl) <| .cons (.accepted rfl rfl (by decide)) <|
    .cons (.finished rfl rfl) <| .cons (.refused rfl rfl) <| .cons (.returned rfl) <|
    .cons (.left rfl rfl) .nil
  exact ⟨_, hrun, by decide +kernel, (run_delivers _ _ 0 1 .finish).2 es _ hrun⟩

/-- **What a consumer gets that collects does not depend on the interleaving or the capacity.** -/
theorem collect_outcome {r : Except Error (Option String)}
    (h : Run (start generator prompt capacity reads .collect) es t) (hr : t.outcome? = some r) :
    t.reads = answers (generator prompt).fragments reads ∧
      r = result (some (String.join ((generator prompt).fragments.drop reads)))
        (generator prompt).ending := by
  have ht := consistent_of_run h
  obtain ⟨hleft, ending, -, hcollect, rfl⟩ := ht.outcome hr
  obtain ⟨-, rfl⟩ := hcollect rfl
  exact ⟨hleft ▸ ht.answers, rfl⟩

/-- The run in which the consumer goes first goes on until it has left. -/
theorem run_leaves (generator : Generator) (prompt : Prompt) (capacity reads : Nat) (leave : Leave) :
    ∃ r, (run (start generator prompt capacity reads leave)).outcome? = some r := by
  obtain ⟨es, hrun⟩ := exists_run_runSteps _ (start generator prompt capacity reads leave)
  rcases (consistent_of_run hrun).step_or_leaves with ⟨t, ht⟩ | hr
  · exact absurd ht (not_step_run _ t)
  · exact hr

end CallIndex.Stream
