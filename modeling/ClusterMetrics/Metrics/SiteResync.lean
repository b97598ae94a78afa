import ClusterMetrics.Json.Record
import ClusterMetrics.Merge
import ClusterMetrics.Text.Blank
import ClusterMetrics.Timestamp.Codec

/-! # Resync between sites

One resync runs at a time, so its reports are not added up: a newer one takes the place of the older. -/

namespace ClusterMetrics

structure SiteResyncMetrics where
  collected : Timestamp := .zero
  status : String := ""
  started : Timestamp := .zero
  updated : Timestamp := .zero
  buckets : Int64 := 0
  resyncId : String := ""
  deploymentId : String := ""
  replicatedSize : Int64 := 0
  replicatedCount : Int64 := 0
  failedSize : Int64 := 0
  failedCount : Int64 := 0
  failedBuckets : List String := []
  /-- The bucket being worked on. -/
  bucket : String := ""
  /-- The object being worked on. -/
  object : String := ""
deriving DecidableEq, Repr

namespace SiteResyncMetrics

instance : Inhabited SiteResyncMetrics := ⟨{}⟩

def isComplete (m : SiteResyncMetrics) : Bool :=
  Text.toLowerAscii m.status.toList == "completed".toList

def merge (a b : SiteResyncMetrics) : SiteResyncMetrics :=
  if a.collected.isZero || a.collected.lt b.collected then b else a

instance : Merge SiteResyncMetrics := ⟨{}, fun a b => some (a.merge b)⟩

def record : Record SiteResyncMetrics where
  default := {}
  isFlattened := false
  fields := [
    .plain "collected" Timestamp.codec (·.collected) (fun v m => { m with collected := v }),
    .optionalText "resyncStatus" (·.status) (fun v m => { m with status := v }),
    .plain "startTime" Timestamp.codec (·.started) (fun v m => { m with started := v }),
    .plain "lastUpdate" Timestamp.codec (·.updated) (fun v m => { m with updated := v }),
    .plain "numBuckets" .int64 (·.buckets) (fun v m => { m with buckets := v }),
    .plain "resyncID" .text (·.resyncId) (fun v m => { m with resyncId := v }),
    .plain "deplID" .text (·.deploymentId) (fun v m => { m with deploymentId := v }),
    .plain "completeReplicationSize" .int64 (·.replicatedSize) (fun v m => { m with replicatedSize := v }),
    .plain "replicationCount" .int64 (·.replicatedCount) (fun v m => { m with replicatedCount := v }),
    .plain "failedReplicationSize" .int64 (·.failedSize) (fun v m => { m with failedSize := v }),
    .plain "failedReplicationCount" .int64 (·.failedCount) (fun v m => { m with failedCount := v }),
    .plain "failedBuckets" (Codec.text.list.orDefault) (·.failedBuckets)
      (fun v m => { m with failedBuckets := v }),
    .optionalText "bucket" (·.bucket) (fun v m => { m with bucket := v }),
    .optionalText "object" (·.object) (fun v m => { m with object := v })]

def codec : Codec SiteResyncMetrics := record.codec

end SiteResyncMetrics

end ClusterMetrics
