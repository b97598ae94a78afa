import ClusterMetrics.Category
import ClusterMetrics.Metrics.BatchJobs
import ClusterMetrics.Metrics.Cpu
import ClusterMetrics.Metrics.Memory
import ClusterMetrics.Metrics.Network
import ClusterMetrics.Metrics.Os
import ClusterMetrics.Metrics.Rpc
import ClusterMetrics.Metrics.Runtime
import ClusterMetrics.Metrics.Scanner
import ClusterMetrics.Metrics.SiteResync

/-! # Metrics of all categories -/

namespace ClusterMetrics

/-- The metrics of each category, of one node or of several merged. A category that is missing was not
asked for or not collected; it is not zero. -/
structure MetricBundle where
  scanner : Option ScannerMetrics := none
  disk : Option DriveMetrics := none
  os : Option OsMetrics := none
  batchJobs : Option BatchJobMetrics := none
  siteResync : Option SiteResyncMetrics := none
  network : Option NetworkMetrics := none
  memory : Option MemoryMetrics := none
  cpu : Option CpuMetrics := none
  rpc : Option RpcMetrics := none
  runtime : Option RuntimeMetrics := none

namespace MetricBundle

instance : Inhabited MetricBundle := ⟨{}⟩

def has (m : MetricBundle) : Category → Bool
  | .scanner => m.scanner.isSome
  | .disk => m.disk.isSome
  | .os => m.os.isSome
  | .batchJobs => m.batchJobs.isSome
  | .siteResync => m.siteResync.isSome
  | .network => m.network.isSome
  | .memory => m.memory.isSome
  | .cpu => m.cpu.isSome
  | .rpc => m.rpc.isSome
  | .runtime => m.runtime.isSome

/-- The categories that are not missing. -/
def types (m : MetricBundle) : CategoryMask := .ofCategories (Category.all.filter m.has)

def isEmpty (m : MetricBundle) : Bool := m.types.isEmpty

/-- The metrics of the categories selected. -/
def restrict (m : MetricBundle) (types : CategoryMask) : MetricBundle where
  scanner := if types.has .scanner then m.scanner else none
  disk := if types.has .disk then m.disk else none
  os := if types.has .os then m.os else none
  batchJobs := if types.has .batchJobs then m.batchJobs else none
  siteResync := if types.has .siteResync then m.siteResync else none
  network := if types.has .network then m.network else none
  memory := if types.has .memory then m.memory else none
  cpu := if types.has .cpu then m.cpu else none
  rpc := if types.has .rpc then m.rpc else none
  runtime := if types.has .runtime then m.runtime else none

def merge? (a b : MetricBundle) : Option MetricBundle := do
  return {
    scanner := ← Merge.slot? a.scanner b.scanner
    disk := ← Merge.slot? a.disk b.disk
    os := ← Merge.slot? a.os b.os
    batchJobs := ← Merge.slot? a.batchJobs b.batchJobs
    siteResync := ← Merge.slot? a.siteResync b.siteResync
    network := ← Merge.slot? a.network b.network
    memory := ← Merge.slot? a.memory b.memory
    cpu := ← Merge.slot? a.cpu b.cpu
    rpc := ← Merge.slot? a.rpc b.rpc
    runtime := ← Merge.slot? a.runtime b.runtime }

instance : Merge MetricBundle := ⟨{}, merge?⟩

def numEq (a b : MetricBundle) : Bool :=
  a.scanner == b.scanner && a.disk == b.disk && a.os == b.os && a.batchJobs == b.batchJobs &&
    a.siteResync == b.siteResync && a.network == b.network && a.memory == b.memory &&
    NumEq.numEq a.cpu b.cpu && NumEq.numEq a.rpc b.rpc && NumEq.numEq a.runtime b.runtime

instance : NumEq MetricBundle := ⟨numEq⟩

def record : Record MetricBundle where
  default := {}
  isFlattened := false
  fields := [
    .optional "scanner" ScannerMetrics.codec (·.scanner) (fun v m => { m with scanner := v }),
    .optional "disk" DriveMetrics.codec (·.disk) (fun v m => { m with disk := v }),
    .optional "os" OsMetrics.codec (·.os) (fun v m => { m with os := v }),
    .optional "batchJobs" BatchJobMetrics.codec (·.batchJobs) (fun v m => { m with batchJobs := v }),
    .optional "siteResync" SiteResyncMetrics.codec (·.siteResync) (fun v m => { m with siteResync := v }),
    .optional "net" NetworkMetrics.codec (·.network) (fun v m => { m with network := v }),
    .optional "mem" MemoryMetrics.codec (·.memory) (fun v m => { m with memory := v }),
    .optional "cpu" CpuMetrics.codec (·.cpu) (fun v m => { m with cpu := v }),
    .optional "rpc" RpcMetrics.codec (·.rpc) (fun v m => { m with rpc := v }),
    .optional "go" RuntimeMetrics.codec (·.runtime) (fun v m => { m with runtime := v })]

def codec : Codec MetricBundle := record.codec

end MetricBundle

end ClusterMetrics
