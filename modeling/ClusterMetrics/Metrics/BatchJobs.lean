import ClusterMetrics.Json.Record
import ClusterMetrics.Merge
import ClusterMetrics.Timestamp.Codec

/-! # Batch jobs

Each job is run by one node at a time, so of two reports on a job the later one to be merged counts. -/

namespace ClusterMetrics

/-- How far a job that walks over objects has come. -/
structure WalkProgress where
  lastBucket : String := ""
  lastObject : String := ""
  objects : Int64 := 0
  objectsFailed : Int64 := 0
deriving DecidableEq, Repr

namespace WalkProgress

instance : Inhabited WalkProgress := ⟨{}⟩

def record : Record WalkProgress where
  default := {}
  isFlattened := false
  fields := [
    .plain "lastBucket" .text (·.lastBucket) (fun v p => { p with lastBucket := v }),
    .plain "lastObject" .text (·.lastObject) (fun v p => { p with lastObject := v }),
    .plain "objects" .int64 (·.objects) (fun v p => { p with objects := v }),
    .plain "objectsFailed" .int64 (·.objectsFailed) (fun v p => { p with objectsFailed := v })]

def codec : Codec WalkProgress := record.codec

end WalkProgress

/-- How far a replication has come. -/
structure ReplicationProgress where
  walk : WalkProgress := {}
  bytesTransferred : Int64 := 0
  bytesFailed : Int64 := 0
deriving DecidableEq, Repr

namespace ReplicationProgress

instance : Inhabited ReplicationProgress := ⟨{}⟩

def record : Record ReplicationProgress where
  default := {}
  isFlattened := false
  fields := WalkProgress.record.fields.map (.within (·.walk) (fun w p => { p with walk := w })) ++ [
    .plain "bytesTransferred" .int64 (·.bytesTransferred) (fun v p => { p with bytesTransferred := v }),
    .plain "bytesFailed" .int64 (·.bytesFailed) (fun v p => { p with bytesFailed := v })]

def codec : Codec ReplicationProgress := record.codec

end ReplicationProgress

/-- A job as the node that runs it sees it. -/
structure BatchJob where
  id : String := ""
  kind : String := ""
  started : Timestamp := .zero
  updated : Timestamp := .zero
  retries : Int32 := 0
  complete : Bool := false
  failed : Bool := false
  replication : Option ReplicationProgress := none
  keyRotation : Option WalkProgress := none
  expiration : Option WalkProgress := none
deriving DecidableEq, Repr

namespace BatchJob

instance : Inhabited BatchJob := ⟨{}⟩

def record : Record BatchJob where
  default := {}
  isFlattened := false
  fields := [
    .plain "jobID" .text (·.id) (fun v j => { j with id := v }),
    .plain "jobType" .text (·.kind) (fun v j => { j with kind := v }),
    .plain "startTime" Timestamp.codec (·.started) (fun v j => { j with started := v }),
    .plain "lastUpdate" Timestamp.codec (·.updated) (fun v j => { j with updated := v }),
    .plain "retryAttempts" .int32 (·.retries) (fun v j => { j with retries := v }),
    .plain "complete" .bool (·.complete) (fun v j => { j with complete := v }),
    .plain "failed" .bool (·.failed) (fun v j => { j with failed := v }),
    .optional "replicate" ReplicationProgress.codec (·.replication) (fun v j => { j with replication := v }),
    .optional "rotation" WalkProgress.codec (·.keyRotation) (fun v j => { j with keyRotation := v }),
    .optional "expired" WalkProgress.codec (·.expiration) (fun v j => { j with expiration := v })]

def codec : Codec BatchJob := record.codec

end BatchJob

structure BatchJobMetrics where
  collected : Timestamp := .zero
  /-- Jobs by their identifiers. -/
  jobs : KeyMap BatchJob := .empty
deriving DecidableEq

namespace BatchJobMetrics

instance : Inhabited BatchJobMetrics := ⟨{}⟩

/-- A report without jobs says nothing, not even when it was collected. -/
def merge (a b : BatchJobMetrics) : BatchJobMetrics :=
  if b.jobs.isEmpty then a
  else { collected := a.collected.latest b.collected, jobs := a.jobs.overwrite b.jobs }

instance : Merge BatchJobMetrics := ⟨{}, fun a b => some (a.merge b)⟩

def record : Record BatchJobMetrics where
  default := {}
  isFlattened := false
  fields := [
    .plain "collected" Timestamp.codec (·.collected) (fun v m => { m with collected := v }),
    .plain "jobs" BatchJob.codec.keyMap.orDefault (·.jobs) (fun v m => { m with jobs := v })]

def codec : Codec BatchJobMetrics := record.codec

end BatchJobMetrics

end ClusterMetrics
