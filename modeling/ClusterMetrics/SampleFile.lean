import ClusterMetrics.Duration.Text
import ClusterMetrics.Node

/-! # Files of latency samples

A file has one sample a line, a duration or a host and a duration with a blank between them. Durations
may be bare nanoseconds. Blank lines and lines that begin with `#` are passed over. -/

namespace ClusterMetrics

/-- Samples by host, and those without one. -/
structure SampleFile where
  unlabelled : LatencySamples := .empty
  byHost : KeyMap (List Duration) := .empty

namespace SampleFile

/-- A line that is no sample; lines are counted from one. -/
structure ParseError where
  line : Nat
  cause : Duration.ParseError
deriving Repr, DecidableEq

def ParseError.message (e : ParseError) : String := s!"line {e.line}: {e.cause.message}"

/-- A sample and the host it belongs to. -/
structure Sample where
  host : Option String
  duration : Duration
deriving Repr, DecidableEq

/-- Reads a line that has been trimmed. -/
def Sample.ofLine (line : List Char) : Except Duration.ParseError Sample :=
  match Text.cutAt Text.isBlank line with
  | some (host, value) =>
    (Duration.parseSample (String.ofList (Text.trim value))).map (⟨some (String.ofList host), ·⟩)
  | none => (Duration.parseSample (String.ofList line)).map (⟨none, ·⟩)

/-- Whether a trimmed line is passed over. -/
def isSkipped (line : List Char) : Bool :=
  match line with
  | [] => true
  | c :: _ => c == '#'

/-- The sample on a line, if it has one. -/
def readLine (raw : List Char) (number : Nat) : Except ParseError (Option Sample) :=
  let line := Text.trim raw
  if isSkipped line then .ok none
  else match Sample.ofLine line with
    | .ok sample => .ok (some sample)
    | .error cause => .error ⟨number, cause⟩

/-- The samples of a text, in the order of its lines. -/
def readSamples (text : String) : Except ParseError (List Sample) := do
  let lines := (Text.splitOn '\n' text.toList).zipIdx 1
  return (← lines.mapM fun line => readLine line.1 line.2).filterMap id

/-- The file with one more sample before all others. -/
def addFirst (sample : Sample) (s : SampleFile) : SampleFile :=
  match sample.host with
  | some host =>
    { s with byHost := s.byHost.insert host (sample.duration :: (s.byHost.get? host).getD []) }
  | none => { s with unlabelled := ⟨sample.duration :: s.unlabelled.durations⟩ }

def ofSamples (samples : List Sample) : SampleFile := samples.foldr addFirst {}

def parse (text : String) : Except ParseError SampleFile := (readSamples text).map ofSamples

/-- A summary for each host, in the order of their names. -/
def perHost (s : SampleFile) : List NodeLatency :=
  s.byHost.entries.map fun entry => NodeLatency.measure entry.1 entry.2

end SampleFile

end ClusterMetrics
