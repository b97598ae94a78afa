import ClusterMetrics.Metrics.Operations
import ClusterMetrics.Timestamp.Codec

/-! # The background scanner -/

namespace ClusterMetrics

/-- The scan of one bucket on one erasure set. -/
structure BucketScan where
  pool : Int32 := 0
  set : Int32 := 0
  cycle : UInt64 := 0
  ongoing : Bool := false
  updated : Timestamp := .zero
  started : Timestamp := .zero
  lastError : String := ""
  completed : List Timestamp := []
deriving DecidableEq, Repr

namespace BucketScan

instance : Inhabited BucketScan := ⟨{}⟩

def record : Record BucketScan where
  default := {}
  isFlattened := false
  fields := [
    .plain "pool" .int32 (·.pool) (fun v s => { s with pool := v }),
    .plain "set" .int32 (·.set) (fun v s => { s with set := v }),
    .plain "cycle" .uint64 (·.cycle) (fun v s => { s with cycle := v }),
    .plain "ongoing" .bool (·.ongoing) (fun v s => { s with ongoing := v }),
    .plain "last_update" Timestamp.codec (·.updated) (fun v s => { s with updated := v }),
    .plain "last_started" Timestamp.codec (·.started) (fun v s => { s with started := v }),
    .optionalText "last_error" (·.lastError) (fun v s => { s with lastError := v }),
    .optionalList "completed" Timestamp.codec (·.completed) (fun v s => { s with completed := v })]

def codec : Codec BucketScan := record.codec

end BucketScan

/-- What the scanner did in the last minute, by name. -/
structure ScannerLastMinute where
  actions : KeyMap OperationTotals := .empty
  /-- Actions of life cycle management. -/
  lifecycle : KeyMap OperationTotals := .empty
deriving DecidableEq

namespace ScannerLastMinute

instance : Inhabited ScannerLastMinute := ⟨{}⟩

def record : Record ScannerLastMinute where
  default := {}
  isFlattened := false
  fields := [
    .optionalMap "actions" OperationTotals.codec (·.actions) (fun v m => { m with actions := v }),
    .optionalMap "ilm" OperationTotals.codec (·.lifecycle) (fun v m => { m with lifecycle := v })]

def codec : Codec ScannerLastMinute := record.codec

end ScannerLastMinute

/-- The scanner of one node or of several merged. -/
structure ScannerMetrics where
  collected : Timestamp := .zero
  cycle : UInt64 := 0
  /-- When the current cycle started. -/
  started : Timestamp := .zero
  /-- When the latest cycles were complete. -/
  completed : List Timestamp := []
  ongoingBuckets : UInt64 := 0
  perBucket : KeyMap (List BucketScan) := .empty
  /-- Operations since the start, by name. -/
  lifeTime : KeyMap UInt64 := .empty
  /-- Actions of life cycle management since the start, by name. -/
  lifeTimeLifecycle : KeyMap UInt64 := .empty
  lastMinute : ScannerLastMinute := {}
  /-- The paths being scanned. -/
  active : List String := []
deriving DecidableEq

namespace ScannerMetrics

instance : Inhabited ScannerMetrics := ⟨{}⟩

/-- The completion times of the later cycle, unless those of the other one are more. -/
def mergeCompleted (a b : ScannerMetrics) : List Timestamp :=
  let kept := if a.cycle < b.cycle then b.completed else a.completed
  if kept.length < b.completed.length then b.completed else kept

/-- The stats of both by bucket; those of `a` stay. -/
def mergePerBucket (a b : KeyMap (List BucketScan)) : KeyMap (List BucketScan) :=
  b.overwrite a

def mergeActive (a b : List String) : List String :=
  if b.isEmpty then a else Merge.sortTexts (a ++ b)

def merge? (a b : ScannerMetrics) : Option ScannerMetrics := do
  return {
    collected := a.collected.latest b.collected
    cycle := max a.cycle b.cycle
    started := if a.cycle < b.cycle then b.started else a.started
    completed := a.mergeCompleted b
    ongoingBuckets := max a.ongoingBuckets b.ongoingBuckets
    perBucket := mergePerBucket a.perBucket b.perBucket
    lifeTime := ← Merge.sumByKey? a.lifeTime b.lifeTime
    lifeTimeLifecycle := ← Merge.sumByKey? a.lifeTimeLifecycle b.lifeTimeLifecycle
    lastMinute := {
      actions := ← Merge.byKey? a.lastMinute.actions b.lastMinute.actions
      lifecycle := ← Merge.byKey? a.lastMinute.lifecycle b.lastMinute.lifecycle }
    active := mergeActive a.active b.active }

instance : Merge ScannerMetrics := ⟨{}, merge?⟩

def record : Record ScannerMetrics where
  default := {}
  isFlattened := false
  fields := [
    .plain "collected" Timestamp.codec (·.collected) (fun v s => { s with collected := v }),
    .plain "current_cycle" .uint64 (·.cycle) (fun v s => { s with cycle := v }),
    .plain "current_started" Timestamp.codec (·.started) (fun v s => { s with started := v }),
    .plain "cycle_complete_times" Timestamp.codec.list.orDefault (·.completed)
      (fun v s => { s with completed := v }),
    .plain "ongoing_buckets" .uint64 (·.ongoingBuckets) (fun v s => { s with ongoingBuckets := v }),
    .optionalMap "per_bucket_stats" BucketScan.codec.list (·.perBucket)
      (fun v s => { s with perBucket := v }),
    .optionalMap "life_time_ops" .uint64 (·.lifeTime) (fun v s => { s with lifeTime := v }),
    .optionalMap "ilm_ops" .uint64 (·.lifeTimeLifecycle) (fun v s => { s with lifeTimeLifecycle := v }),
    .plain "last_minute" ScannerLastMinute.codec (·.lastMinute) (fun v s => { s with lastMinute := v }),
    .optionalList "active" .text (·.active) (fun v s => { s with active := v })]

def codec : Codec ScannerMetrics := record.codec

end ScannerMetrics

end ClusterMetrics
