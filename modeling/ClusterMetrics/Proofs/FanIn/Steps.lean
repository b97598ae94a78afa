import Mathlib.Logic.Relation
import ClusterMetrics.FanIn
import ClusterMetrics.Proofs.Stream.RunSteps

/-! # Gathering several streams, step by step

Every source has a task of its own. The tasks send what they read through one bounded channel, and a consumer
receives it until the channel is closed or the caller's token is raised. Which of them goes on next is left
open: a step is one of any that are possible, and a run any sequence of steps. -/

namespace ClusterMetrics

/-! ### Tasks -/

inductive Activity where
  | reading
  /-- The event waits for room in the channel. -/
  | sending (e : SourceEvent)
  | ended

/-- The task of one source. -/
structure Worker where
  name : String
  stream : Stream
  activity : Activity := .reading

namespace Worker

/-- The task after its stream's next frame; `stopped` is the token that all tasks share. -/
def read (w : Worker) (stopped : Bool) : Worker :=
  { w with
    stream := (w.stream.next stopped).2
    activity := match (w.stream.next stopped).1 with
      | .ok (some f) => .sending (.frame w.name f)
      | .ok none => .ended
      | .error e => if e.isCancelled then .ended else .sending (.failed w.name e) }

/-- Whether the caller raises its token while the task waits for its stream. Nothing comes from that stream any
more. -/
def interrupts (w : Worker) (stopped : Bool) : Bool :=
  !stopped && match (w.stream.next stopped).1 with
    | .ok _ => false
    | .error e => e.isCancelled

/-- The task after its event was taken: a failure is its last one. -/
def sent (w : Worker) (e : SourceEvent) : Worker :=
  { w with activity := match e with
      | .frame .. => .reading
      | .failed .. => .ended }

end Worker

/-! ### Steps -/

structure Gathering where
  workers : List Worker
  channel : List SourceEvent := []
  received : FanIn := {}
  /-- Whether the caller's token is raised. -/
  raised : Bool := false
  /-- How the consumer ended. -/
  outcome : Option (Except StreamError Unit) := none
  /-- Whether the tasks' token is raised. -/
  stopped : Bool := false

namespace Gathering

/-- How many events the channel holds. -/
def capacity : Nat := 64

def start (sources : List Source) : Gathering :=
  { workers := sources.map fun s => { name := s.name, stream := { body := s.body } } }

inductive Step (s : Gathering) : Gathering → Prop where
  | raise : Step s { s with raised := true }
  | read {before after : List Worker} {w : Worker} (hw : s.workers = before ++ w :: after)
      (h : w.activity = .reading) :
      Step s { s with
        workers := before ++ w.read s.stopped :: after, raised := s.raised || w.interrupts s.stopped }
  | send {before after : List Worker} {w : Worker} {e : SourceEvent} (hw : s.workers = before ++ w :: after)
      (h : w.activity = .sending e) (hopen : s.outcome = none) (hroom : s.channel.length < capacity) :
      Step s { s with workers := before ++ w.sent e :: after, channel := s.channel ++ [e] }
  /-- Nobody receives any more. -/
  | hangUp {before after : List Worker} {w : Worker} {e : SourceEvent} (hw : s.workers = before ++ w :: after)
      (h : w.activity = .sending e) (hclosed : s.outcome ≠ none) :
      Step s { s with workers := before ++ { w with activity := .ended } :: after }
  | receive {e : SourceEvent} {rest : List SourceEvent} (hopen : s.outcome = none) (hr : s.raised = false)
      (hc : s.channel = e :: rest) : Step s { s with channel := rest, received := s.received.receive e }
  /-- The consumer looks at the caller's token first. -/
  | cancel (hopen : s.outcome = none) (hr : s.raised = true) :
      Step s { s with outcome := some (.error .cancelled) }
  | close (hopen : s.outcome = none) (hr : s.raised = false) (hc : s.channel = [])
      (hw : ∀ w ∈ s.workers, w.activity = .ended) : Step s { s with outcome := some (.ok ()) }
  | stop (hclosed : s.outcome ≠ none) : Step s { s with stopped := true }

def Run : Gathering → Gathering → Prop := Relation.ReflTransGen Step

/-- The tasks were told to stop, and all of them have ended. -/
structure IsComplete (s : Gathering) : Prop where
  stopped : s.stopped = true
  ended : ∀ w ∈ s.workers, w.activity = .ended

/-- What a complete run returns, unless a counter leaves its range. -/
def returned? (s : Gathering) : Option (Except StreamError Frame) :=
  match s.outcome with
  | none => none
  | some (.error e) => some (.error e)
  | some (.ok ()) => s.received.view?.map .ok

end Gathering

end ClusterMetrics
