import ClusterMetrics.Metrics.Drive

/-! # Operations of the operating system -/

namespace ClusterMetrics

/-- System calls made for the storage layer. -/
structure OsMetrics where
  collected : Timestamp := .zero
  /-- Operations since the start, by name. -/
  lifeTime : KeyMap UInt64 := .empty
  lastMinute : LastMinute := {}
deriving DecidableEq

namespace OsMetrics

instance : Inhabited OsMetrics := ⟨{}⟩

def merge? (a b : OsMetrics) : Option OsMetrics := do
  return {
    collected := a.collected.latest b.collected
    lifeTime := ← Merge.sumByKey? a.lifeTime b.lifeTime
    lastMinute := ← a.lastMinute.merge? b.lastMinute }

instance : Merge OsMetrics := ⟨{}, merge?⟩

def record : Record OsMetrics where
  default := {}
  isFlattened := false
  fields := [
    .plain "collected" Timestamp.codec (·.collected) (fun v o => { o with collected := v }),
    .optionalMap "life_time_ops" .uint64 (·.lifeTime) (fun v o => { o with lifeTime := v }),
    .plain "last_minute" LastMinute.codec (·.lastMinute) (fun v o => { o with lastMinute := v })]

def codec : Codec OsMetrics := record.codec

end OsMetrics

end ClusterMetrics
