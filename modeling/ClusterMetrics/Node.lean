import ClusterMetrics.Latency
import ClusterMetrics.Metrics.Bundle

/-! # Replies of single nodes -/

namespace ClusterMetrics

/-- A reply with metrics. -/
structure NodeReport where
  node : NodeStatus := {}
  metrics : MetricBundle := {}
  byDisk : KeyMap DriveMetrics := .empty

namespace NodeReport

instance : Inhabited NodeReport := ⟨{}⟩

def record : Record NodeReport where
  default := {}
  isFlattened := true
  fields := NodeStatus.record.fields.map (.within (·.node) (fun n r => { r with node := n })) ++ [
    .plain "metrics" MetricBundle.codec (·.metrics) (fun v r => { r with metrics := v }),
    .omittable "by_disk" DriveMetrics.codec.keyMap KeyMap.isEmpty (·.byDisk)
      (fun v r => { r with byDisk := v })]

def codec : Codec NodeReport := record.codec

end NodeReport

/-- Durations are held as nanoseconds, as far as they fit 64 bits. -/
def Duration.codec : Codec Duration where
  read depth j := (Codec.uint64.read depth j).map Duration.ofNanoseconds
  write d := Codec.uint64.write d.saturatedNanoseconds

namespace LatencySummary

def record : Record LatencySummary where
  default := .zero
  isFlattened := false
  fields := [
    .required "avg" Duration.codec (·.mean) (fun v s => { s with mean := v }),
    .required "p50" Duration.codec (·.p50) (fun v s => { s with p50 := v }),
    .required "p75" Duration.codec (·.p75) (fun v s => { s with p75 := v }),
    .required "p95" Duration.codec (·.p95) (fun v s => { s with p95 := v }),
    .required "p99" Duration.codec (·.p99) (fun v s => { s with p99 := v }),
    .required "p999" Duration.codec (·.p999) (fun v s => { s with p999 := v }),
    .required "l5p" Duration.codec (·.slowest) (fun v s => { s with slowest := v }),
    .required "s5p" Duration.codec (·.fastest) (fun v s => { s with fastest := v }),
    .required "max" Duration.codec (·.max) (fun v s => { s with max := v }),
    .required "min" Duration.codec (·.min) (fun v s => { s with min := v }),
    .required "sdev" Duration.codec (·.deviation) (fun v s => { s with deviation := v }),
    .required "range" Duration.codec (·.range) (fun v s => { s with range := v })]

def codec : Codec LatencySummary := record.codec

end LatencySummary

/-- The latency measured against a node. -/
structure NodeLatency where
  node : NodeStatus := {}
  timings : LatencySummary := .zero
deriving DecidableEq, Repr

namespace NodeLatency

instance : Inhabited NodeLatency := ⟨{}⟩

def measure (address : String) (samples : List Duration) : NodeLatency where
  node := { address }
  timings := (LatencySamples.mk samples).summary

def record : Record NodeLatency where
  default := {}
  isFlattened := true
  fields := NodeStatus.record.fields.map (.within (·.node) (fun n l => { l with node := n })) ++ [
    .plain "timings" LatencySummary.codec (·.timings) (fun v l => { l with timings := v })]

def codec : Codec NodeLatency := record.codec

end NodeLatency

end ClusterMetrics
