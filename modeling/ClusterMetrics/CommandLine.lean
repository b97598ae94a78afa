import ClusterMetrics.CommandLine.Command
import ClusterMetrics.FanIn
import ClusterMetrics.Input
import ClusterMetrics.Report
import ClusterMetrics.SampleFile
import ClusterMetrics.Stream.Exchange
import ClusterMetrics.Text.Utf8

/-! # The command line program

The program watches a recorded stream, merges several of them, summarizes latency samples, or shows how
to ask for a stream. -/

namespace ClusterMetrics

/-! ### Texts as they are logged -/

namespace Text

/-- A log is read on a terminal, so the control characters that a terminal acts on are spelled out in it by their
numbers. All other characters, ends of lines among them, stay as they are. -/
def loggedChar (c : Char) : List Char :=
  match c with
  | '\x07' => "\\x07".toList
  | '\x08' => "\\x08".toList
  | '\x0c' => "\\x0c".toList
  | '\x1b' => "\\x1b".toList
  | '\x7f' => "\\x7f".toList
  | c =>
    if 0x80 ≤ c.toNat && c.toNat ≤ 0x9F then "\\u\x7b".toList ++ Nat.toDigits 16 c.toNat ++ ['\x7d']
    else [c]

def logged (s : String) : String := String.ofList (s.toList.flatMap loggedChar)

end Text

namespace CommandLine

/-! ### What a run comes to -/

/-- What a run of the program comes to. -/
structure Completion where
  status : UInt32
  /-- The lines of the standard output. -/
  output : List Bytes := []
  errors : List String := []

namespace Completion

/-- The status of a run in which a counter left its range. -/
def overflowStatus : UInt32 := 101

def misuseStatus : UInt32 := 2

def success (output : List Bytes) : Completion := { status := 0, output }

def overflow (output : List Bytes) : Completion := { status := overflowStatus, output }

def failure (output : List Bytes) (error : String) : Completion := { status := 1, output, errors := [error] }

/-- Each line with its end. -/
def outputBytes (c : Completion) : Bytes := c.output.flatMap (· ++ [0x0A])

/-- The errors as they are logged. -/
def log (c : Completion) : List String := c.errors.map Text.logged

end Completion

def ioMessage (text : String) : String := (StreamError.io text).message

/-! ### Watching -/

/-- A frame as it is shown among others. -/
def Watch.show (w : Watch) (f : Frame) : Bytes :=
  if w.isJson then Frame.codec.compact f else utf8Bytes (Report.line f)

/-- The merged view as it is shown at the end. -/
def Watch.showView (w : Watch) (view : ClusterView) : Bytes :=
  let f := { view.frame with isFinal := true }
  if w.isJson then Frame.codec.pretty f else utf8Bytes ("merged: " ++ Report.line f)

/-- The lines for frames, and the view they leave; no view if a counter left its range, after the last line
that could be shown. -/
def Watch.showFrames (w : Watch) : List Frame → ClusterView → List Bytes × Option ClusterView
  | [], view => ([], some view)
  | f :: frames, view =>
    let f := f.restrict w.types
    match if w.isMerging then view.absorb? f else some view with
    | none => ([], none)
    | some view =>
      let (lines, last) := w.showFrames frames view
      (w.show f :: lines, last)

def Watch.run (w : Watch) (surroundings : Surroundings) : Completion :=
  let opening : Opening :=
    match surroundings.openInput (Input.ofPath w.input) with
    | .ok (body, _) => .body body
    | .error text => .refused text
  let request := { Request.default with types := w.types }
  let outcome := (Exchange.ofRequest request opening false fun _ => false).outcome
  match w.showFrames outcome.delivered {}, outcome.result with
  | (lines, none), _ => .overflow lines
  | (lines, some _), .error e => .failure lines e.message
  | (lines, some view), .ok _ =>
    .success (lines ++ if w.isMerging then [w.showView view] else [])

/-! ### Merging -/

/-- Opens all inputs, or none if one of them cannot be opened. -/
def openSources : List Input → Surroundings → Except String (List Source)
  | [], _ => .ok []
  | input :: inputs, surroundings => do
    let (body, surroundings) ← surroundings.openInput input
    return ⟨input.name, body⟩ :: (← openSources inputs surroundings)

def runMerge (inputs : List String) (surroundings : Surroundings) : Completion :=
  match openSources (inputs.map Input.ofPath) surroundings with
  | .error text => .failure [] (ioMessage text)
  | .ok sources =>
    match FanIn.collect? sources false with
    | none => .overflow []
    | some (.error e) => .failure [] e.message
    | some (.ok view) => .success [Frame.codec.pretty view]

/-! ### Summarizing samples -/

/-- The text of an input, or why there is none. -/
def readText (input : String) (surroundings : Surroundings) : Except String String := do
  let (body, _) ← surroundings.openInput (Input.ofPath input)
  let bytes ← body.readAll
  (Utf8.decode ⟨bytes.toArray⟩).mapError Utf8.Fault.message

/-- The summary of the samples, or one for each host if there are hosts. -/
def showSamples (s : SampleFile) : Bytes :=
  if s.byHost.isEmpty then LatencySummary.codec.pretty s.unlabelled.summary
  else NodeLatency.codec.list.pretty s.perHost

def runTimings (input : String) (surroundings : Surroundings) : Completion :=
  match readText input surroundings with
  | .error text => .failure [] (ioMessage text)
  | .ok text =>
    match SampleFile.parse text with
    | .error e => .failure [] s!"invalid sample at {e.message}"
    | .ok samples => .success [showSamples samples]

/-! ### Asking -/

def runQuery (request : Request) : Completion :=
  match request.effectiveInterval? with
  | none => .overflow []
  | some _ => .success [utf8Bytes s!"{Request.path}?{request.queryString}"]

/-! ### All commands -/

def Command.run (command : Command) (surroundings : Surroundings) : Completion :=
  match command with
  | .watch w => w.run surroundings
  | .merge inputs => runMerge inputs surroundings
  | .timings input => runTimings input surroundings
  | .query request => runQuery request

/-- The paths that a command may open. -/
def Command.inputs : Command → List String
  | .watch w => [w.input]
  | .merge inputs => inputs
  | .timings input => [input]
  | .query _ => []

def versionLine : String := "rtmetrics 0.1.0"

def helpLines : List String := [
  "Usage: rtmetrics [-v] [-q] COMMAND",
  "  watch [--types TYPES] [--merge] [--json] [INPUT]",
  "  merge INPUT...",
  "  timings [INPUT]",
  "  query [--types TYPES] [-n SAMPLES] [--interval INTERVAL] [--hosts HOSTS] [--disks DISKS]",
  "        [--by-host] [--by-disk] [--by-job-id ID] [--by-dep-id ID]"]

def Stop.completion : Stop → Completion
  | .help => .success (helpLines.map utf8Bytes)
  | .version => .success [utf8Bytes versionLine]
  | .misuse => { status := Completion.misuseStatus }

def run (env : Environment) (arguments : List String) (surroundings : Surroundings) : Completion :=
  match Command.ofArguments env arguments with
  | .ok command => command.run surroundings
  | .error stop => stop.completion

end CommandLine

end ClusterMetrics
