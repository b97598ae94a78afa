import ClusterMetrics.Duration.Text
import ClusterMetrics.Form
import ClusterMetrics.Request

/-! # Requests as query strings

A request is written as pairs in a fixed order, those at their default left out where a reader cannot
tell the difference. Reading takes the pairs in any order: the last one with a key decides its
field, and unknown keys have no say. -/

namespace ClusterMetrics.Request

/-- The path that serves the stream of metrics. -/
def path : String := "/minio/admin/v3/metrics"

/-! ### Writing -/

def queryPairs (r : Request) : List (String × String) :=
  [("types", String.ofList (Text.decimal r.types.bits.toNat)),
    ("n", String.ofList (Text.decimal r.samples.toNat)),
    ("interval", r.interval.format)] ++
  (if r.hosts.isEmpty then [] else [("hosts", ",".intercalate r.hosts)]) ++
  (if r.byHost then [("by-host", "true")] else []) ++
  (if r.disks.isEmpty then [] else [("disks", ",".intercalate r.disks)]) ++
  (if r.byDisk then [("by-disk", "true")] else []) ++
  (if r.jobId.isEmpty then [] else [("by-jobID", r.jobId)]) ++
  (if r.deploymentId.isEmpty then [] else [("by-depID", r.deploymentId)])

def queryString (r : Request) : String := Form.encode r.queryPairs

/-! ### Reading -/

/-- A value that its key does not take. -/
inductive QueryError where
  | invalidNumber (key value : String)
  | invalidBool (key value : String)
  | invalidInterval (error : Duration.ParseError)
deriving Repr, DecidableEq

def QueryError.message : QueryError → String
  | invalidNumber key value => s!"invalid value '{value}' for '{key}': expected a number"
  | invalidBool key value => s!"invalid value '{value}' for '{key}': expected true or false"
  | invalidInterval e => s!"invalid interval: {e.message}"

/-- A number of 32 bits; one plus sign may stand in front. -/
def readWord? (value : String) : Option UInt32 :=
  let digits := match value.toList with
    | '+' :: cs => cs
    | cs => cs
  (Text.readDecimalBelow? 0x100000000 digits).map UInt32.ofNat

/-- `true` or `false` in any case, or nothing for `false`. -/
def readBool? (value : String) : Option Bool :=
  let lower := String.ofList (Text.toLowerAscii value.toList)
  if lower = "true" then some true
  else if lower = "" ∨ lower = "false" then some false
  else none

def readList (value : String) : List String := (Text.commaList value.toList).map String.ofList

def orInvalidNumber (key value : String) : Except QueryError UInt32 :=
  match readWord? value with
  | some n => .ok n
  | none => .error (.invalidNumber key value)

def orInvalidBool (key value : String) : Except QueryError Bool :=
  match readBool? value with
  | some b => .ok b
  | none => .error (.invalidBool key value)

/-- The request with the field of `key` replaced. -/
def withPair (r : Request) (pair : String × String) : Except QueryError Request :=
  let (key, value) := pair
  match key with
  | "types" => return { r with types := ⟨← orInvalidNumber key value⟩ }
  | "n" => return { r with samples := ← orInvalidNumber key value }
  | "interval" => return { r with interval := ← (Duration.parse value).mapError .invalidInterval }
  | "hosts" => .ok { r with hosts := readList value }
  | "disks" => .ok { r with disks := readList value }
  | "by-host" => return { r with byHost := ← orInvalidBool key value }
  | "by-disk" => return { r with byDisk := ← orInvalidBool key value }
  | "by-jobID" => .ok { r with jobId := value }
  | "by-depID" => .ok { r with deploymentId := value }
  | _ => .ok r

def ofPairs (pairs : List (String × String)) : Except QueryError Request :=
  pairs.foldlM withPair default

/-- Reads a query string; a question mark may stand in front. -/
def parse (query : String) : Except QueryError Request :=
  ofPairs <| Form.decode <| match query.toList with
    | '?' :: cs => cs
    | cs => cs

end ClusterMetrics.Request
