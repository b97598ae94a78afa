import ClusterMetrics.Duration
import ClusterMetrics.Json.Record
import ClusterMetrics.Merge

/-! # Totals of one kind of operation -/

namespace ClusterMetrics
open CheckedAdd (add?)

structure OperationTotals where
  count : UInt64 := 0
  /-- The time spent, in nanoseconds. -/
  time : UInt64 := 0
  bytes : UInt64 := 0
deriving DecidableEq, Repr

namespace OperationTotals

instance : Inhabited OperationTotals := ⟨{}⟩

/-- The mean time of one operation, zero if there was none. -/
def meanTime (t : OperationTotals) : Duration := .ofNanoseconds (t.time / t.count)

/-- The mean number of bytes of one operation, zero if there was none. -/
def meanBytes (t : OperationTotals) : UInt64 := t.bytes / t.count

def merge? (a b : OperationTotals) : Option OperationTotals := do
  return {
    count := ← add? a.count b.count
    time := ← add? a.time b.time
    bytes := ← add? a.bytes b.bytes }

instance : Merge OperationTotals := ⟨{}, merge?⟩

def record : Record OperationTotals where
  default := {}
  isFlattened := false
  fields := [
    .required "count" .uint64 (·.count) (fun v t => { t with count := v }),
    .required "acc_time_ns" .uint64 (·.time) (fun v t => { t with time := v }),
    .counter "bytes" (·.bytes) (fun v t => { t with bytes := v })]

def codec : Codec OperationTotals := record.codec

end OperationTotals

end ClusterMetrics
