import ClusterMetrics.FileTree

/-! # Inputs that stand for sources

A path names an input: a single dash the standard input, anything else a file. An input is opened as a
body, and its name is what it is called in reports. -/

namespace ClusterMetrics

inductive Input where
  | standard
  | file (path : String)
deriving Repr, DecidableEq

namespace Input

def ofPath (path : String) : Input := if path = "-" then standard else file path

def isStandard (i : Input) : Bool := i = standard

/-! ### Names -/

/-- The parts of a path that say something: a part that is empty or a single dot does not. -/
def pathParts (path : String) : List FileName :=
  (FileTree.namesOf path).filter fun part => !part.isEmpty && part != ['.']

/-- A file name without what follows its last dot, unless that dot comes first. -/
def stem (name : FileName) : FileName :=
  match name.reverse.dropWhile (· != '.') with
  | [] | ['.'] => name
  | _ :: before => before.reverse

/-- The name of the file without its extension, or the path if it ends in no name. -/
def name : Input → String
  | standard => "stdin"
  | file path =>
    match (pathParts path).getLast? with
    | none | some ['.', '.'] => path
    | some part => String.ofList (stem part)

end Input

/-! ### Opening -/

/-- What inputs are opened in: the standard input, and how files are opened. -/
structure Surroundings where
  standardInput : Body
  openFile : String → Except FileFault Body

namespace Surroundings

/-- Opens an input. The standard input is handed to the first that asks for it, and has ended for others. -/
def openInput (s : Surroundings) : Input → Except String (Body × Surroundings)
  | .standard => .ok (s.standardInput, { s with standardInput := [] })
  | .file path =>
    match s.openFile path with
    | .ok body => .ok (body, s)
    | .error fault => .error s!"{path}: {fault.message}"

end Surroundings

/-- All bytes of a body, or why it cannot be read to its end. -/
def Body.readAll : Body → Except String Bytes
  | [] => .ok []
  | .bytes bs :: body => (readAll body).map (bs ++ ·)
  | .failure text :: _ => .error text
  | _ :: body => readAll body

end ClusterMetrics
