import ClusterMetrics.ClusterView
import ClusterMetrics.Stream.Run

/-! # Several streams as one view

Each source is a stream of its own. Of every source that sent frames the latest one counts; the latest
frames are merged in the order of the names, and failures are noted behind them. -/

namespace ClusterMetrics

structure Source where
  name : String
  body : Body

/-- What a source sends. -/
inductive SourceEvent where
  | frame (source : String) (f : Frame)
  /-- The last event of a source that fails. -/
  | failed (source : String) (e : StreamError)

namespace Source

def outcome (s : Source) : Stream.Outcome := Stream.runAll { body := s.body }

/-- Everything the source sends, in its order. -/
def events (s : Source) : List SourceEvent :=
  s.outcome.delivered.map (.frame s.name) ++
    match s.outcome.result with
    | .ok _ => []
    | .error e => if e.isCancelled then [] else [.failed s.name e]

/-- Whether the token is raised while the source is read. -/
def interrupts (s : Source) : Bool :=
  match s.outcome.result with
  | .ok _ => false
  | .error e => e.isCancelled

end Source

/-- What was received so far. -/
structure FanIn where
  latest : KeyMap Frame := .empty
  failures : List (String × StreamError) := []

namespace FanIn

def receive (s : FanIn) : SourceEvent → FanIn
  | .frame source f => { s with latest := s.latest.insert source f }
  | .failed source e => { s with failures := s.failures ++ [(source, e)] }

/-- The final view of what was received, unless a counter leaves its range. -/
def view? (s : FanIn) : Option Frame := do
  let merged ← s.latest.entries.foldlM (fun v entry => v.absorb? entry.2) ({} : ClusterView)
  let noted := s.failures.foldl (fun v failure => v.recordError failure.1 failure.2.message) merged
  return { noted.frame with isFinal := true }

/-- The view of all sources, read one after the other; cancelled if the token is raised at the beginning
or while a source is read, and none if a counter leaves its range. -/
def collect? (sources : List Source) (raised : Bool) : Option (Except StreamError Frame) :=
  if raised || sources.any Source.interrupts then some (.error .cancelled)
  else ((sources.flatMap Source.events).foldl receive {}).view?.map .ok

end FanIn

end ClusterMetrics
