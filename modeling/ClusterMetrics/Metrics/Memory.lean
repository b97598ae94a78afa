import ClusterMetrics.Merge
import ClusterMetrics.NodeStatus
import ClusterMetrics.Timestamp.Codec

/-! # Memory -/

namespace ClusterMetrics
open CheckedAdd (add?)

/-- Memory in bytes, of one node or of several merged. -/
structure MemoryUse where
  node : NodeStatus := {}
  total : UInt64 := 0
  used : UInt64 := 0
  free : UInt64 := 0
  available : UInt64 := 0
  shared : UInt64 := 0
  cache : UInt64 := 0
  buffers : UInt64 := 0
  swapTotal : UInt64 := 0
  swapFree : UInt64 := 0
  /-- What the control group allows. -/
  limit : UInt64 := 0
deriving DecidableEq, Repr

namespace MemoryUse

instance : Inhabited MemoryUse := ⟨{}⟩

def merge? (a b : MemoryUse) : Option MemoryUse := do
  return {
    node := {
      address := Merge.firstNonempty a.node.address b.node.address
      error := Merge.firstNonempty a.node.error b.node.error }
    total := ← add? a.total b.total
    used := ← add? a.used b.used
    free := ← add? a.free b.free
    available := ← add? a.available b.available
    shared := ← add? a.shared b.shared
    cache := ← add? a.cache b.cache
    buffers := ← add? a.buffers b.buffers
    swapTotal := ← add? a.swapTotal b.swapTotal
    swapFree := ← add? a.swapFree b.swapFree
    limit := ← add? a.limit b.limit }

instance : Merge MemoryUse := ⟨{}, merge?⟩

def record : Record MemoryUse where
  default := {}
  isFlattened := true
  fields := NodeStatus.record.fields.map (.within (·.node) (fun n m => { m with node := n })) ++ [
    .counter "total" (·.total) (fun v m => { m with total := v }),
    .counter "used" (·.used) (fun v m => { m with used := v }),
    .counter "free" (·.free) (fun v m => { m with free := v }),
    .counter "available" (·.available) (fun v m => { m with available := v }),
    .counter "shared" (·.shared) (fun v m => { m with shared := v }),
    .counter "cache" (·.cache) (fun v m => { m with cache := v }),
    .counter "buffer" (·.buffers) (fun v m => { m with buffers := v }),
    .counter "swap_space_total" (·.swapTotal) (fun v m => { m with swapTotal := v }),
    .counter "swap_space_free" (·.swapFree) (fun v m => { m with swapFree := v }),
    .counter "mem_limit" (·.limit) (fun v m => { m with limit := v })]

def codec : Codec MemoryUse := record.codec

end MemoryUse

structure MemoryMetrics where
  collected : Timestamp := .zero
  memory : MemoryUse := {}
deriving DecidableEq, Repr

namespace MemoryMetrics

instance : Inhabited MemoryMetrics := ⟨{}⟩

def merge? (a b : MemoryMetrics) : Option MemoryMetrics := do
  return {
    collected := a.collected.latest b.collected
    memory := ← a.memory.merge? b.memory }

instance : Merge MemoryMetrics := ⟨{}, merge?⟩

def record : Record MemoryMetrics where
  default := {}
  isFlattened := false
  fields := [
    .plain "collected" Timestamp.codec (·.collected) (fun v m => { m with collected := v }),
    .plain "memInfo" MemoryUse.codec (·.memory) (fun v m => { m with memory := v })]

def codec : Codec MemoryMetrics := record.codec

end MemoryMetrics

end ClusterMetrics
