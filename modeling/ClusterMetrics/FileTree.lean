import ClusterMetrics.Stream
import ClusterMetrics.Text.Blank

/-! # Trees of files

Files by the names that lead to them from the root of a tree, and the folders that hold them. A path is
walked name by name, from the root if it begins with a slash and else from the working folder. -/

namespace ClusterMetrics

/-- Why a file cannot be opened or read. -/
inductive FileFault where
  | missing
  | notDirectory
  | isDirectory
  | nameTooLong
  | permissionDenied
  | other (text : String)
deriving Repr, DecidableEq

def FileFault.message : FileFault → String
  | missing => "No such file or directory (os error 2)"
  | notDirectory => "Not a directory (os error 20)"
  | isDirectory => "Is a directory (os error 21)"
  | nameTooLong => "File name too long (os error 36)"
  | permissionDenied => "Permission denied (os error 13)"
  | other text => text

abbrev FileName := List Char

namespace FileName

/-- The most bytes a name may have. -/
def limit : Nat := 255

def isTooLong (name : FileName) : Bool := limit < (String.ofList name).utf8ByteSize

/-- The names from the root after one more name of a path. No name and a single dot stay; two dots go up,
and stay at the root. -/
def follow (names : List FileName) (name : FileName) : List FileName :=
  if name.isEmpty || name == ['.'] then names
  else if name == ['.', '.'] then names.dropLast
  else names ++ [name]

end FileName

/-- A tree has its working folder, the folders given and those that lead to one of its files. -/
structure FileTree where
  files : List (List FileName × Bytes) := []
  folders : List (List FileName) := []
  workingFolder : List FileName := []
deriving Repr

namespace FileTree

/-- A place that a path leads to. -/
inductive Place where
  | folder (names : List FileName)
  | file (contents : Bytes)
deriving Repr, DecidableEq

/-- The most bytes a path may have. -/
def pathLimit : Nat := 4095

/-- The names of a path. -/
def namesOf (path : String) : List FileName := Text.splitOn '/' path.toList

/-- Where the walk along a path begins. -/
def start (t : FileTree) (path : String) : List FileName :=
  if path.startsWith "/" then [] else t.workingFolder

/-- The tree with a file written at a path. -/
def write (t : FileTree) (path : String) (contents : Bytes) : FileTree :=
  { t with files := ((namesOf path).foldl FileName.follow (t.start path), contents) :: t.files }

/-- The tree with a folder made at a path. -/
def makeFolder (t : FileTree) (path : String) : FileTree :=
  { t with folders := (namesOf path).foldl FileName.follow (t.start path) :: t.folders }

def hasFolder (t : FileTree) (names : List FileName) : Bool :=
  names.isPrefixOf t.workingFolder || t.folders.any names.isPrefixOf ||
    t.files.any fun file => names.isPrefixOf file.1

def find (t : FileTree) (names : List FileName) : Except FileFault Place :=
  match t.files.lookup names with
  | some contents => .ok (.file contents)
  | none => if t.hasFolder names then .ok (.folder names) else .error .missing

/-- The place that one more name of a path leads to. -/
def enter (t : FileTree) (place : Place) (name : FileName) : Except FileFault Place :=
  match place with
  | .file _ => .error .notDirectory
  | .folder names =>
    if name.isTooLong then .error .nameTooLong else t.find (FileName.follow names name)

/-- The place that a path leads to. The length of a path is looked at before its names. -/
def walk (t : FileTree) (path : String) : Except FileFault Place :=
  if pathLimit < path.utf8ByteSize then .error .nameTooLong
  else if path.isEmpty then .error .missing
  else (namesOf path).foldlM t.enter (.folder (t.start path))

/-- Opens a file by its path. A folder can be opened but not read. -/
def openFile (t : FileTree) (path : String) : Except FileFault Body :=
  (t.walk path).map fun
    | .file contents => [.bytes contents]
    | .folder _ => [.failure FileFault.isDirectory.message]

end FileTree

end ClusterMetrics
