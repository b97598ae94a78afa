import ClusterMetrics.CommandLine

/-! # Running the program

Reads the inputs that the command names, runs it on them, and prints what it comes to. -/

namespace ClusterMetrics.Main
open CommandLine

/-- The number of an error, of which some come negated. -/
def errorNumber (code : UInt32) : UInt32 := if code < 0x80000000 then code else 0 - code

/-- What opening a file comes to if reading it fails. A folder can be opened. -/
def openingAfter : IO.Error → Except FileFault Body
  | .noFileOrDirectory .. => .error .missing
  | .permissionDenied .. => .error .permissionDenied
  | .inappropriateType _ code _ =>
    if errorNumber code = 21 then .ok [.failure FileFault.isDirectory.message] else .error .notDirectory
  | .invalidArgument _ code details =>
    .error (if errorNumber code = 36 then .nameTooLong else .other details)
  | e => .error (.other (toString e))

/-- The body of a file. -/
def readFile (path : String) : IO (Except FileFault Body) := do
  try
    let bytes ← IO.FS.readBinFile path
    return .ok [.bytes bytes.toList]
  catch e => return openingAfter e

/-- The bytes of a stream up to its end. -/
partial def readRest (input : IO.FS.Stream) (acc : ByteArray) : IO ByteArray := do
  let chunk ← input.read 65536
  if chunk.isEmpty then return acc else readRest input (acc ++ chunk)

/-- The inputs that a command may open. -/
def surroundingsOf (command : Command) : IO Surroundings := do
  let inputs := command.inputs.map Input.ofPath
  let standardInput ←
    if inputs.any Input.isStandard then do
      let bytes ← readRest (← IO.getStdin) .empty
      pure [.bytes bytes.toList]
    else pure []
  let files ← inputs.filterMapM fun
    | .standard => pure none
    | .file path => do return some (path, ← readFile path)
  return { standardInput, openFile := fun path => (files.lookup path).getD (.error .missing) }

def complete (c : Completion) : IO UInt32 := do
  (← IO.getStdout).write ⟨c.outputBytes.toArray⟩
  for e in c.log do IO.eprintln s!"ERROR {e}"
  return c.status

def runProgram (arguments : List String) : IO UInt32 := do
  let env : Environment :=
    { types := ← IO.getEnv "RTMETRICS_TYPES", interval := ← IO.getEnv "RTMETRICS_INTERVAL" }
  match Command.ofArguments env arguments with
  | .error stop => complete stop.completion
  | .ok command => complete (command.run (← surroundingsOf command))

end ClusterMetrics.Main

def main (arguments : List String) : IO UInt32 := ClusterMetrics.Main.runProgram arguments
