import ClusterMetrics.Category.Codec
import ClusterMetrics.CommandLine.Arguments
import ClusterMetrics.Duration.Text
import ClusterMetrics.Request
import ClusterMetrics.Text.Decimal

/-! # The commands and their arguments

What an option does not say, a variable of the environment may say, and otherwise a default. An option
that holds one value, or none, may be given once. -/

namespace ClusterMetrics.CommandLine

/-- How recorded frames are watched. -/
structure Watch where
  input : String
  types : CategoryMask
  /-- Whether to merge the frames and show the view at the end. -/
  isMerging : Bool
  isJson : Bool
deriving Repr, DecidableEq

inductive Command where
  | watch (w : Watch)
  | merge (inputs : List String)
  | timings (input : String)
  | query (request : Request)
deriving Repr, DecidableEq

/-- The variables that the program looks at, as far as they are set. -/
structure Environment where
  types : Option String := none
  interval : Option String := none

/-! ### Values -/

def readTypes? (value : String) : Option CategoryMask := (CategoryMask.parse value).toOption

def readInterval? (value : String) : Option Duration := (Duration.parse value).toOption

/-- A number of 32 bits, which may have a sign. -/
def readCount? (value : String) : Option UInt32 :=
  match value.toList with
  | '-' :: digits => (Text.readDecimalBelow? 1 digits).map UInt32.ofNat
  | '+' :: digits | digits => (Text.readDecimalBelow? 0x100000000 digits).map UInt32.ofNat

def readPath? (value : String) : Option String := if value.isEmpty then none else some value

/-- The pieces of a comma list as they stand. -/
def readPieces (value : String) : List String := (Text.splitOn ',' value.toList).map String.ofList

/-- `value` for a field without one. -/
def once {α : Type} (field : Option α) (value : Option α) : Option (Option α) :=
  match field with
  | none => value.map some
  | some _ => none

/-- A flag that is set for the first time. -/
def onceSet (field : Bool) : Option Bool := if field then none else some true

/-- The value given, or else that set in the environment, or else the default. -/
def resolve {α : Type} (read : String → Option α) (default : α) (given : Option α)
    (preset : Option String) : Except Stop α :=
  match given, preset with
  | some a, _ => .ok a
  | none, some value => orMisuse (read value)
  | none, none => .ok default

/-! ### Arguments that every command takes -/

/-- The settings of a command, and whether it was told to be quiet. -/
structure Level (σ : Type) where
  settings : σ
  isQuiet : Bool := false

def Action.lift {σ : Type} : Action σ → Action (Level σ)
  | .flag apply => .flag fun l => (apply l.settings).map ({ l with settings := · })
  | .value apply => .value fun value l => (apply value l.settings).map ({ l with settings := · })
  | .stop why => .stop why

def commonRules (σ : Type) : List (OptionRule (Level σ)) := [
  ⟨"verbose", some 'v', .flag some⟩,
  ⟨"quiet", some 'q', .flag fun l => do return { l with isQuiet := ← onceSet l.isQuiet }⟩,
  ⟨"help", some 'h', .stop .help⟩]

/-- Reads the arguments of a command, given what it takes beside the common ones. -/
def Usage.readLevel {σ : Type} (u : Usage σ) (arguments : List String) (s : σ) : Except Stop σ :=
  let lifted : Usage (Level σ) := {
    rules := commonRules σ ++ u.rules.map fun r => ⟨r.name, r.letter, r.action.lift⟩
    addWord := fun word l => (u.addWord word l.settings).map ({ l with settings := · }) }
  (lifted.read arguments { settings := s }).map Level.settings

/-! ### Single commands -/

structure WatchSettings where
  input : Option String := none
  types : Option CategoryMask := none
  isMerging : Bool := false
  isJson : Bool := false

def watchUsage : Usage WatchSettings where
  rules := [
    ⟨"types", none, .value fun v s => do return { s with types := ← once s.types (readTypes? v) }⟩,
    ⟨"merge", none, .flag fun s => do return { s with isMerging := ← onceSet s.isMerging }⟩,
    ⟨"json", none, .flag fun s => do return { s with isJson := ← onceSet s.isJson }⟩]
  addWord word s := do return { s with input := ← once s.input (readPath? word) }

def WatchSettings.command (env : Environment) (s : WatchSettings) : Except Stop Command := do
  let types ← resolve readTypes? .all s.types env.types
  return .watch { input := s.input.getD "-", types, isMerging := s.isMerging, isJson := s.isJson }

def mergeUsage : Usage (List String) where
  rules := []
  addWord word inputs := do return inputs ++ [← readPath? word]

def timingsUsage : Usage (Option String) where
  rules := []
  addWord word input := once input (readPath? word)

structure QuerySettings where
  types : Option CategoryMask := none
  samples : Option UInt32 := none
  interval : Option Duration := none
  hosts : List String := []
  disks : List String := []
  byHost : Bool := false
  byDisk : Bool := false
  jobId : Option String := none
  deploymentId : Option String := none

def queryUsage : Usage QuerySettings where
  rules := [
    ⟨"types", none, .value fun v s => do return { s with types := ← once s.types (readTypes? v) }⟩,
    ⟨"samples", some 'n', .value fun v s => do return { s with samples := ← once s.samples (readCount? v) }⟩,
    ⟨"interval", none, .value fun v s => do
      return { s with interval := ← once s.interval (readInterval? v) }⟩,
    ⟨"hosts", none, .value fun v s => some { s with hosts := s.hosts ++ readPieces v }⟩,
    ⟨"disks", none, .value fun v s => some { s with disks := s.disks ++ readPieces v }⟩,
    ⟨"by-host", none, .flag fun s => do return { s with byHost := ← onceSet s.byHost }⟩,
    ⟨"by-disk", none, .flag fun s => do return { s with byDisk := ← onceSet s.byDisk }⟩,
    ⟨"by-job-id", none, .value fun v s => do return { s with jobId := ← once s.jobId (some v) }⟩,
    ⟨"by-dep-id", none, .value fun v s => do
      return { s with deploymentId := ← once s.deploymentId (some v) }⟩]
  addWord _ _ := none

def QuerySettings.command (env : Environment) (s : QuerySettings) : Except Stop Command := do
  let types ← resolve readTypes? .all s.types env.types
  let interval ← resolve readInterval? Request.leastInterval s.interval env.interval
  return .query {
    types, interval, samples := s.samples.getD 0, hosts := s.hosts, byHost := s.byHost
    disks := s.disks, byDisk := s.byDisk, jobId := s.jobId.getD ""
    deploymentId := s.deploymentId.getD "" }

/-! ### All commands -/

/-- The command of a name, from the arguments that follow it. -/
def Command.ofName (env : Environment) (name : String) (arguments : List String) : Except Stop Command :=
  match name with
  | "watch" => do (← watchUsage.readLevel arguments {}).command env
  | "merge" => do
    let inputs ← mergeUsage.readLevel arguments []
    if inputs.isEmpty then .error .misuse else return .merge inputs
  | "timings" => do return .timings ((← timingsUsage.readLevel arguments none).getD "-")
  | "query" => do (← queryUsage.readLevel arguments {}).command env
  | "help" =>
    match arguments with
    | [] | ["watch"] | ["merge"] | ["timings"] | ["query"] | ["help"] => .error .help
    | _ => .error .misuse
  | _ => .error .misuse

/-- The options that may stand before the name of a command. -/
def leadingRules : List (OptionRule (Level Unit)) :=
  commonRules Unit ++ [⟨"version", some 'V', .stop .version⟩]

/-- Reads what stands before the name of a command, then the command. -/
def Command.ofArgumentsFrom (env : Environment) : List String → Level Unit → Except Stop Command
  | [], _ => .error .misuse
  | argument :: rest, l =>
    match shapeOf argument with
    | .word => Command.ofName env argument rest
    | .dashes => .error .misuse
    | .name name value => do ofArgumentsFrom env rest (← readName leadingRules name value l).1
    | .letters cs => do ofArgumentsFrom env rest (← readLetters leadingRules cs l).1

def Command.ofArguments (env : Environment) (arguments : List String) : Except Stop Command :=
  Command.ofArgumentsFrom env arguments { settings := () }

end ClusterMetrics.CommandLine
