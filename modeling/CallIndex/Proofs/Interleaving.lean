import Mathlib.Logic.Relation
import CallIndex.Stream

/-!
# Interleavings of a channel

What was offered, refused and lost is not in the state of a channel. So each step gets an event, and a
run is the list of its events.

* `Event`: what happens in one step of either end.
* `Fires`: the steps with their events, one constructor for each kind of step.
* `step_iff_fires`: these are the steps of the channel.
* `Run`: any interleaving of the two ends. `reflTransGen_step_iff` ties it to `Step`.
* `Run.length_add_steps_le`, `Run.length_le`: **no interleaving goes on forever.**
* `exists_run_runSteps`, `not_step_run`: the run in which the consumer goes first is one of the
  interleavings, and it goes on until neither end has a step.
-/

namespace CallIndex.Stream

/-! ## Steps with their events -/

/-- What happens in one step. -/
inductive Event where
  /-- The producer offered a fragment, and was told if it went into the channel. -/
  | emitted (fragment : String) (accepted : Bool)
  /-- The producer came to the end of its script. -/
  | returned
  /-- A single read gave a fragment, or none. -/
  | read (fragment : Option String)
  /-- The consumer goes on to collect the rest. -/
  | collecting
  /-- A fragment was read to be joined with the others. -/
  | taken (fragment : String)
  /-- The consumer closed the channel. -/
  | closed
  /-- The consumer got the answer of the producer. -/
  | left
  deriving DecidableEq, Repr

variable {s t u : State} {e : Event} {es fs : List Event}

/-- A step with its event. A producer that waits for room when the channel is closed is refused, like
one that comes later. -/
inductive Fires : State → Event → State → Prop where
  | returned {s : State} (hp : s.producer = .running []) :
      Fires s .returned { s with producer := .ended s.ending }
  | refused {s : State} {fragment : String} {rest : List String}
      (hp : s.producer = .running (fragment :: rest)) (ha : s.attached = false) :
      Fires s (.emitted fragment false) { s with producer := s.reaction.next rest }
  | accepted {s : State} {fragment : String} {rest : List String}
      (hp : s.producer = .running (fragment :: rest)) (ha : s.attached = true)
      (hroom : s.buffer.length < s.capacity) :
      Fires s (.emitted fragment true)
        { s with producer := .running rest, buffer := s.buffer ++ [fragment] }
  | read {s : State} {left : Nat} {fragment : String} {rest : List String}
      (hc : s.consumer = .reading (left + 1)) (hb : s.buffer = fragment :: rest) :
      Fires s (.read (some fragment))
        { s with buffer := rest, consumer := .reading left, reads := s.reads ++ [some fragment] }
  | readNone {s : State} {left : Nat} {ending : Ending} (hc : s.consumer = .reading (left + 1))
      (hb : s.buffer = []) (hp : s.producer = .ended ending) :
      Fires s (.read none) { s with consumer := .reading left, reads := s.reads ++ [none] }
  | collecting {s : State} (hc : s.consumer = .reading 0) (hl : s.leave = .collect) :
      Fires s .collecting { s with consumer := .collecting "" }
  | taken {s : State} {text fragment : String} {rest : List String}
      (hc : s.consumer = .collecting text) (hb : s.buffer = fragment :: rest) :
      Fires s (.taken fragment) { s with buffer := rest, consumer := .collecting (text ++ fragment) }
  | drained {s : State} {text : String} {ending : Ending} (hc : s.consumer = .collecting text)
      (hb : s.buffer = []) (hp : s.producer = .ended ending) :
      Fires s .closed (s.close (some text))
  | finished {s : State} (hc : s.consumer = .reading 0) (hl : s.leave = .finish) :
      Fires s .closed (s.close none)
  | left {s : State} {text : Option String} {ending : Ending} (hc : s.consumer = .waiting text)
      (hp : s.producer = .ended ending) :
      Fires s .left { s with consumer := .left (result text ending) }

/-- A step of the producer fires an event. -/
theorem fires_of_produce (h : produce? s = some t) : ∃ e, Fires s e t := by
  unfold produce? at h
  split at h
  next => cases h
  next hp =>
    cases h
    exact ⟨_, .returned hp⟩
  next fragment rest hp =>
    split at h
    next ha =>
      cases h
      exact ⟨_, .refused hp (by simpa using ha)⟩
    next ha =>
      split at h
      next hroom =>
        cases h
        exact ⟨_, .accepted hp (by simpa using ha) hroom⟩
      next => cases h

/-- A step of the consumer fires an event. -/
theorem fires_of_consume (h : consume? s = some t) : ∃ e, Fires s e t := by
  unfold consume? at h
  split at h
  next hc =>
    split at h
    next hl =>
      cases h
      exact ⟨_, .collecting hc hl⟩
    next hl =>
      cases h
      exact ⟨_, .finished hc hl⟩
  next left hc =>
    split at h
    next fragment rest _ hb =>
      cases h
      exact ⟨_, .read hc hb⟩
    next ending hb hp =>
      cases h
      exact ⟨_, .readNone hc hb hp⟩
    next => cases h
  next text hc =>
    split at h
    next fragment rest _ hb =>
      cases h
      exact ⟨_, .taken hc hb⟩
    next ending hb hp =>
      cases h
      exact ⟨_, .drained hc hb hp⟩
    next => cases h
  next text hc =>
    split at h
    next ending hp =>
      cases h
      exact ⟨_, .left hc hp⟩
    next => cases h
  next => cases h

theorem Fires.step (h : Fires s e t) : Step s t := by
  cases h with
  | returned hp => exact .produce (by simp [produce?, hp])
  | refused hp ha => exact .produce (by simp [produce?, hp, ha])
  | accepted hp ha hroom => exact .produce (by simp [produce?, hp, ha, hroom])
  | read hc hb => exact .consume (by simp [consume?, hc, hb])
  | readNone hc hb hp => exact .consume (by simp [consume?, hc, hb, hp])
  | collecting hc hl => exact .consume (by simp [consume?, hc, hl])
  | taken hc hb => exact .consume (by simp [consume?, hc, hb])
  | drained hc hb hp => exact .consume (by simp [consume?, hc, hb, hp])
  | finished hc hl => exact .consume (by simp [consume?, hc, hl])
  | left hc hp => exact .consume (by simp [consume?, hc, hp])

/-- **The events cover all steps**, and no others. -/
theorem step_iff_fires : Step s t ↔ ∃ e, Fires s e t := by
  constructor
  · rintro (h | h)
    · exact fires_of_produce h
    · exact fires_of_consume h
  · rintro ⟨e, h⟩
    exact h.step

/-- Each step brings a channel nearer to its end. -/
theorem Fires.steps_lt (h : Fires s e t) : t.steps < s.steps := by
  cases h with
  | returned hp => simp [State.steps, hp]
  | refused hp ha => cases s.reaction <;> simp [State.steps, Reaction.next, hp]
  | accepted hp ha hroom => simp [State.steps, hp]; omega
  | read hc hb => simp [State.steps, hc, hb]; omega
  | readNone hc hb hp => simp [State.steps, hc, hb, hp]
  | collecting hc hl => simp [State.steps, hc]
  | taken hc hb => simp [State.steps, hc, hb]
  | drained hc hb hp => simp [State.steps, State.close, hc, hb, hp]
  | finished hc hl => simp [State.steps, State.close, hc]; omega
  | left hc hp => simp [State.steps, hc]

/-! ## Runs -/

/-- An interleaving of the two ends, with its events. -/
inductive Run : State → List Event → State → Prop where
  | nil {s : State} : Run s [] s
  | cons {s t u : State} {e : Event} {es : List Event} (h : Fires s e t) (hrun : Run t es u) :
      Run s (e :: es) u

/-- **Runs are the interleavings of the steps of the two ends.** -/
theorem reflTransGen_step_iff : Relation.ReflTransGen Step s t ↔ ∃ es, Run s es t := by
  constructor
  · intro h
    induction h using Relation.ReflTransGen.head_induction_on with
    | refl => exact ⟨[], .nil⟩
    | head hstep _ ih =>
      obtain ⟨e, he⟩ := step_iff_fires.1 hstep
      obtain ⟨es, hes⟩ := ih
      exact ⟨e :: es, .cons he hes⟩
  · rintro ⟨es, h⟩
    induction h with
    | nil => exact .refl
    | cons h _ ih => exact .head h.step ih

/-- A run stops at each of its events. -/
theorem Run.split (h : Run s (es ++ e :: fs) u) :
    ∃ t t', Run s es t ∧ Fires t e t' ∧ Run t' fs u := by
  induction es generalizing s with
  | nil =>
    cases h with
    | cons he hfs => exact ⟨s, _, .nil, he, hfs⟩
  | cons f es ih =>
    cases h with
    | cons hf hrun =>
      obtain ⟨t, t', hes, he, hfs⟩ := ih hrun
      exact ⟨t, t', .cons hf hes, he, hfs⟩

/-- **No interleaving goes on forever**, since each event takes one of the steps that are left. -/
theorem Run.length_add_steps_le (h : Run s es t) : es.length + t.steps ≤ s.steps := by
  induction h with
  | nil => simp
  | cons he _ ih =>
    have := he.steps_lt
    simp only [List.length_cons]
    omega

theorem Run.length_le {generator : Generator} {prompt : Prompt} {capacity reads : Nat} {leave : Leave}
    (h : Run (start generator prompt capacity reads leave) es t) :
    es.length ≤ 2 * (generator prompt).fragments.length + reads + 4 := by
  have hsteps := h.length_add_steps_le
  simp only [start, State.steps, List.length_nil] at hsteps
  omega

/-! ## The run in which the consumer goes first -/

theorem exists_run_runSteps (n : Nat) (s : State) : ∃ es, Run s es (runSteps n s) := by
  induction n generalizing s with
  | zero => exact ⟨[], .nil⟩
  | succ n ih =>
    have next {t : State} (h : Step s t) : ∃ es, Run s es (runSteps n t) := by
      obtain ⟨e, he⟩ := step_iff_fires.1 h
      obtain ⟨es, hes⟩ := ih t
      exact ⟨e :: es, .cons he hes⟩
    rw [runSteps]
    split
    next t ht => exact next (.consume ht)
    next =>
      split
      next t ht => exact next (.produce ht)
      next => exact ⟨[], .nil⟩

/-- With enough steps it goes on until neither end has one. -/
theorem not_step_runSteps {n : Nat} (hn : s.steps ≤ n) (t : State) : ¬ Step (runSteps n s) t := by
  induction n generalizing s with
  | zero =>
    intro h
    obtain ⟨e, he⟩ := step_iff_fires.1 h
    have := he.steps_lt
    rw [runSteps] at this
    omega
  | succ n ih =>
    have next {u : State} (h : Step s u) : ¬ Step (runSteps n u) t := by
      obtain ⟨e, he⟩ := step_iff_fires.1 h
      have := he.steps_lt
      exact ih (by omega)
    rw [runSteps]
    split
    next u hu => exact next (.consume hu)
    next hnone =>
      split
      next u hu => exact next (.produce hu)
      next hnone' =>
        rintro (h | h)
        · rw [hnone'] at h
          cases h
        · rw [hnone] at h
          cases h

theorem not_step_run (s t : State) : ¬ Step (run s) t :=
  not_step_runSteps (Nat.le_refl _) t

end CallIndex.Stream
