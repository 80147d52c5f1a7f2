import CallIndex.Prompt
import CallIndex.Text.Quoted

/-!
# Streams of generated text

A producer writes fragments of text into a channel, and a consumer reads them. The channel holds a
bounded number of unread fragments. Producer and consumer run in any order: each takes a step when
it can.

* `Stream.Script`: what a producer does: its fragments, how it takes a refused one, how it ends.
* `Stream.State`: the channel with both ends.
* `Stream.produce?`, `Stream.consume?`: one step of either end, if it is not blocked.
* `Stream.Step`: a step of either.
* `Stream.run`: the run in which the consumer goes first whenever it can.
-/

namespace CallIndex.Stream

/-- How a producer ends. -/
inductive Ending where
  | finished
  | failed (error : Error)
  | panicked (message : String)
  deriving DecidableEq, Repr

/-- What a producer does when a fragment is refused because the consumer has gone. -/
inductive Reaction where
  /-- End without an error. -/
  | stop
  /-- End with an error, made from whether the channel is closed. -/
  | fail (error : Bool → Error)
  /-- Go on with the next fragment. -/
  | goOn

/-- What a producer does. -/
structure Script where
  fragments : List String
  reaction : Reaction
  ending : Ending

/-- A producer writes what it makes of a prompt. -/
abbrev Generator := Prompt → Script

/-- How a consumer leaves. -/
inductive Leave where
  /-- Read all that is left, and join it. -/
  | collect
  /-- Close the channel. -/
  | finish
  deriving DecidableEq, Repr

/-- Where a producer stands. -/
inductive Producer where
  | running (rest : List String)
  | ended (ending : Ending)
  deriving DecidableEq, Repr

/-- Where a consumer stands. It reads some fragments one by one, then leaves. -/
inductive Consumer where
  | reading (left : Nat)
  | collecting (text : String)
  /-- The channel is closed; the producer has still to end. -/
  | waiting (text : Option String)
  | left (result : Except Error (Option String))

/-- A channel with both its ends. -/
structure State where
  capacity : Nat
  reaction : Reaction
  ending : Ending
  leave : Leave
  producer : Producer
  consumer : Consumer
  /-- What was accepted and is unread, oldest first. -/
  buffer : List String
  /-- The consumer has not gone away. -/
  attached : Bool
  /-- What the single reads gave, oldest first; none after the last fragment. -/
  reads : List (Option String)

/-- A fresh channel. It has room for one fragment at least. -/
def start (generator : Generator) (prompt : Prompt) (capacity reads : Nat) (leave : Leave) :
    State where
  capacity := max capacity 1
  reaction := (generator prompt).reaction
  ending := (generator prompt).ending
  leave
  producer := .running (generator prompt).fragments
  consumer := .reading reads
  buffer := []
  attached := true
  reads := []

/-- Where a producer goes when a fragment was refused. -/
def Reaction.next (rest : List String) : Reaction → Producer
  | stop => .ended .finished
  | fail error => .ended (.failed (error true))
  | goOn => .running rest

/-- A step of the producer. It is blocked while the channel is full, and has none once it has
ended. -/
def produce? (s : State) : Option State :=
  match s.producer with
  | .ended _ => none
  | .running [] => some { s with producer := .ended s.ending }
  | .running (fragment :: rest) =>
    if !s.attached then some { s with producer := s.reaction.next rest }
    else if s.buffer.length < s.capacity then
      some { s with producer := .running rest, buffer := s.buffer ++ [fragment] }
    else none

/-- The error of a producer that broke off. Tasks are not told apart by number. -/
def panicError (message : String) : Error :=
  .generation ("generator task failed: task N panicked with message " ++ quoted message)

/-- What the consumer gets at the end: the producer's error, if there is one. -/
def result (text : Option String) : Ending → Except Error (Option String)
  | .finished => .ok text
  | .failed error => .error error
  | .panicked message => .error (panicError message)

/-- Close the channel from the consumer's side. What is unread is lost. -/
def State.close (s : State) (text : Option String) : State :=
  { s with attached := false, buffer := [], consumer := .waiting text }

/-- A step of the consumer. It is blocked while the channel is empty and the producer has not ended;
after closing, until the producer ends. -/
def consume? (s : State) : Option State :=
  match s.consumer with
  | .reading 0 =>
    match s.leave with
    | .collect => some { s with consumer := .collecting "" }
    | .finish => some (s.close none)
  | .reading (left + 1) =>
    match s.buffer, s.producer with
    | fragment :: rest, _ =>
      some { s with buffer := rest, consumer := .reading left, reads := s.reads ++ [some fragment] }
    | [], .ended _ => some { s with consumer := .reading left, reads := s.reads ++ [none] }
    | [], .running _ => none
  | .collecting text =>
    match s.buffer, s.producer with
    | fragment :: rest, _ =>
      some { s with buffer := rest, consumer := .collecting (text ++ fragment) }
    | [], .ended _ => some (s.close (some text))
    | [], .running _ => none
  | .waiting text =>
    match s.producer with
    | .ended ending => some { s with consumer := .left (result text ending) }
    | .running _ => none
  | .left _ => none

/-- One step of either end. -/
inductive Step : State → State → Prop where
  | produce {s t : State} : produce? s = some t → Step s t
  | consume {s t : State} : consume? s = some t → Step s t

/-- How many steps a channel can still take at most. -/
def State.steps (s : State) : Nat :=
  (match s.producer with
    | .running rest => 2 * rest.length + 1
    | .ended _ => 0) +
  s.buffer.length +
  match s.consumer with
    | .reading left => left + 3
    | .collecting _ => 2
    | .waiting _ => 1
    | .left _ => 0

/-- Run for some steps; the consumer goes first when both could. -/
def runSteps : Nat → State → State
  | 0, s => s
  | steps + 1, s =>
    match consume? s with
    | some t => runSteps steps t
    | none =>
      match produce? s with
      | some t => runSteps steps t
      | none => s

/-- Run until both ends have left. -/
def run (s : State) : State := runSteps s.steps s

/-- What the consumer got when it left. -/
def State.outcome? (s : State) : Option (Except Error (Option String)) :=
  match s.consumer with
  | .left result => some result
  | _ => none

end CallIndex.Stream
