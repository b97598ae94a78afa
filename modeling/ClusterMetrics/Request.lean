import ClusterMetrics.Category
import ClusterMetrics.Duration

/-! # What to collect and how often -/

namespace ClusterMetrics

structure Request where
  types : CategoryMask
  /-- How many samples to send; zero for no limit. -/
  samples : UInt32
  /-- The least time between two samples. -/
  interval : Duration
  /-- The nodes to collect from; all if empty. -/
  hosts : List String
  /-- Whether to report each node beside the aggregate. -/
  byHost : Bool
  /-- The drives to collect from; all if empty. -/
  disks : List String
  /-- Whether to report each drive. -/
  byDisk : Bool
  /-- The one batch job to report; any if empty. -/
  jobId : String
  /-- The one deployment whose resync to report; any if empty. -/
  deploymentId : String
deriving Repr, DecidableEq

namespace Request

/-- The shortest interval a server keeps. -/
def leastInterval : Duration := ⟨1000000000, by decide⟩

def default : Request :=
  { types := .all, samples := 0, interval := leastInterval, hosts := [], byHost := false, disks := [],
    byDisk := false, jobId := "", deploymentId := "" }

instance : Inhabited Request := ⟨default⟩

/-- The interval in force: whole seconds, rounded up, and at least one; `none` if rounding up leaves the
range of durations. -/
def effectiveInterval? (r : Request) : Option Duration :=
  Duration.ofSeconds? (max ((r.interval.nanoseconds + 999999999) / 1000000000) 1)

/-- The number of samples after which the stream ends. -/
def sampleLimit (r : Request) : Option UInt32 := if r.samples = 0 then none else some r.samples

def wantsHost (r : Request) (host : String) : Bool := r.hosts.isEmpty || r.hosts.contains host

def wantsDisk (r : Request) (disk : String) : Bool := r.disks.isEmpty || r.disks.contains disk

end Request

end ClusterMetrics
