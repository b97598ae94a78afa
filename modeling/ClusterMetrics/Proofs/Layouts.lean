import ClusterMetrics.Category.Codec
import ClusterMetrics.Frame
import ClusterMetrics.Proofs.Json.NullForms
import ClusterMetrics.Proofs.Json.Strings

/-! # `null` on the wire

Every type that is exchanged has its layout. Where empty lists and maps of a text are replaced by `null` the value stays
the same, in every type and at every depth, but for two places that do not take `null`: the drives of a node's reply and
the scans of one bucket (`decode?_nulled`). -/

namespace ClusterMetrics

/-! ### Records without lists and maps -/

theorem OperationTotals.hasLayout : OperationTotals.codec.HasLayout record.flatLayout := by
  refine Record.hasLayout_flat (by decide) ?_
  simp only [record, List.forall_mem_cons]
  exact ⟨.integer, .integer, .integer, nofun⟩

theorem BlockDeviceCounters.hasLayout : BlockDeviceCounters.codec.HasLayout record.flatLayout := by
  refine Record.hasLayout_flat (by decide) ?_
  simp only [record, List.forall_mem_cons]
  exact ⟨.integer, .integer, .integer, .integer, .integer, .integer, .integer, .integer, .integer, .integer, .integer,
    .integer, .integer, .integer, .integer, .integer, .integer, nofun⟩

theorem InterfaceCounters.hasLayout : InterfaceCounters.codec.HasLayout record.flatLayout := by
  refine Record.hasLayout_flat (by decide) ?_
  simp only [record, List.forall_mem_cons]
  exact ⟨.text, .integer, .integer, .integer, .integer, .integer, .integer, .integer, .integer, .integer, .integer,
    .integer, .integer, .integer, .integer, .integer, .integer, nofun⟩

theorem CpuTimes.hasLayout : CpuTimes.codec.HasLayout record.flatLayout := by
  refine Record.hasLayout_flat (by decide) ?_
  simp only [record, List.forall_mem_cons]
  exact ⟨.text, .double, .double, .double, .double, .double, .double, .double, .double, .double, .double, nofun⟩

theorem LoadAverages.hasLayout : LoadAverages.codec.HasLayout record.flatLayout := by
  refine Record.hasLayout_flat (by decide) ?_
  simp only [record, List.forall_mem_cons]
  exact ⟨.double, .double, .double, nofun⟩

theorem WalkProgress.scalar_fields : ∀ f ∈ WalkProgress.record.fields, f.codec.HasLayout .scalar := by
  simp only [record, List.forall_mem_cons]
  exact ⟨.text, .text, .integer, .integer, nofun⟩

theorem WalkProgress.hasLayout : WalkProgress.codec.HasLayout record.flatLayout :=
  Record.hasLayout_flat (by decide) scalar_fields

theorem ReplicationProgress.hasLayout : ReplicationProgress.codec.HasLayout record.flatLayout := by
  refine Record.hasLayout_flat (by decide) ?_
  simp only [record, List.forall_mem_append, List.forall_mem_map, List.forall_mem_cons]
  exact ⟨WalkProgress.scalar_fields, .integer, .integer, nofun⟩

theorem NodeStatus.scalar_fields : ∀ f ∈ NodeStatus.record.fields, f.codec.HasLayout .scalar := by
  simp only [record, List.forall_mem_cons]
  exact ⟨.text, .text, nofun⟩

theorem NodeStatus.hasLayout : NodeStatus.codec.HasLayout record.flatLayout :=
  Record.hasLayout_flat (by decide) scalar_fields

theorem MemoryUse.hasLayout : MemoryUse.codec.HasLayout record.flatLayout := by
  refine Record.hasLayout_flat (by decide) ?_
  simp only [record, List.forall_mem_append, List.forall_mem_map, List.forall_mem_cons]
  exact ⟨NodeStatus.scalar_fields, .integer, .integer, .integer, .integer, .integer, .integer, .integer, .integer,
    .integer, .integer, nofun⟩

theorem Duration.hasLayout : Duration.codec.HasLayout .scalar := .of_scalar fun _ => ⟨fun _ => rfl, fun _ => rfl⟩

theorem CategoryMask.hasLayout : CategoryMask.codec.HasLayout .scalar :=
  .of_scalar fun _ => ⟨fun _ => rfl, fun _ => rfl⟩

theorem LatencySummary.hasLayout : LatencySummary.codec.HasLayout record.flatLayout := by
  refine Record.hasLayout_flat (by decide) ?_
  simp only [record, List.forall_mem_cons]
  have hspan := Duration.hasLayout
  exact ⟨hspan, hspan, hspan, hspan, hspan, hspan, hspan, hspan, hspan, hspan, hspan, hspan, nofun⟩

/-! ### Metrics -/

/-- A record that may be left out by `null`. -/
theorem Codec.HasLayout.optionalRecord {α : Type} {c : Codec α} {fields : List (String × Layout)}
    (h : c.HasLayout (.record fields)) : c.option.HasLayout (.record fields) := h.option Layout.Nulled.eq_of_record

namespace BucketScan

def layout : Layout :=
  .record [("pool", .scalar), ("set", .scalar), ("cycle", .scalar), ("ongoing", .scalar), ("last_update", .scalar),
    ("last_started", .scalar), ("last_error", .scalar), ("completed", .list true .scalar)]

theorem hasLayout : codec.HasLayout layout :=
  Record.hasLayout (by decide) <| .cons ⟨rfl, .integer⟩ <| .cons ⟨rfl, .integer⟩ <| .cons ⟨rfl, .integer⟩ <|
    .cons ⟨rfl, .bool⟩ <| .cons ⟨rfl, .timestamp⟩ <| .cons ⟨rfl, .timestamp⟩ <| .cons ⟨rfl, .text⟩ <|
    .cons ⟨rfl, .listOrDefault .timestamp⟩ .nil

end BucketScan

namespace ScannerLastMinute

def layout : Layout :=
  .record [("actions", .map true OperationTotals.record.flatLayout),
    ("ilm", .map true OperationTotals.record.flatLayout)]

theorem hasLayout : codec.HasLayout layout :=
  Record.hasLayout (by decide) <| .cons ⟨rfl, .keyMapOrDefault OperationTotals.hasLayout⟩ <|
    .cons ⟨rfl, .keyMapOrDefault OperationTotals.hasLayout⟩ .nil

end ScannerLastMinute

namespace ScannerMetrics

/-- The scans of one bucket do not take `null`. -/
def layout : Layout :=
  .record [("collected", .scalar), ("current_cycle", .scalar), ("current_started", .scalar),
    ("cycle_complete_times", .list true .scalar), ("ongoing_buckets", .scalar),
    ("per_bucket_stats", .map true (.list false BucketScan.layout)), ("life_time_ops", .map true .scalar),
    ("ilm_ops", .map true .scalar), ("last_minute", ScannerLastMinute.layout), ("active", .list true .scalar)]

theorem hasLayout : codec.HasLayout layout :=
  Record.hasLayout (by decide) <| .cons ⟨rfl, .timestamp⟩ <| .cons ⟨rfl, .integer⟩ <| .cons ⟨rfl, .timestamp⟩ <|
    .cons ⟨rfl, .listOrDefault .timestamp⟩ <| .cons ⟨rfl, .integer⟩ <|
    .cons ⟨rfl, .keyMapOrDefault (.list BucketScan.hasLayout)⟩ <| .cons ⟨rfl, .keyMapOrDefault .integer⟩ <|
    .cons ⟨rfl, .keyMapOrDefault .integer⟩ <| .cons ⟨rfl, ScannerLastMinute.hasLayout⟩ <|
    .cons ⟨rfl, .listOrDefault .text⟩ .nil

end ScannerMetrics

namespace LastMinute

def layout : Layout := .record [("operations", .map true OperationTotals.record.flatLayout)]

theorem hasLayout : codec.HasLayout layout :=
  Record.hasLayout (by decide) <| .cons ⟨rfl, .keyMapOrDefault OperationTotals.hasLayout⟩ .nil

end LastMinute

namespace DriveMetrics

def layout : Layout :=
  .record [("collected", .scalar), ("n_disks", .scalar), ("offline", .scalar), ("healing", .scalar),
    ("life_time_ops", .map true .scalar), ("last_minute", LastMinute.layout),
    ("iostats", BlockDeviceCounters.record.flatLayout)]

theorem hasLayout : codec.HasLayout layout :=
  Record.hasLayout (by decide) <| .cons ⟨rfl, .timestamp⟩ <| .cons ⟨rfl, .integer⟩ <| .cons ⟨rfl, .integer⟩ <|
    .cons ⟨rfl, .integer⟩ <| .cons ⟨rfl, .keyMapOrDefault .integer⟩ <| .cons ⟨rfl, LastMinute.hasLayout⟩ <|
    .cons ⟨rfl, BlockDeviceCounters.hasLayout⟩ .nil

end DriveMetrics

namespace OsMetrics

def layout : Layout :=
  .record [("collected", .scalar), ("life_time_ops", .map true .scalar), ("last_minute", LastMinute.layout)]

theorem hasLayout : codec.HasLayout layout :=
  Record.hasLayout (by decide) <| .cons ⟨rfl, .timestamp⟩ <| .cons ⟨rfl, .keyMapOrDefault .integer⟩ <|
    .cons ⟨rfl, LastMinute.hasLayout⟩ .nil

end OsMetrics

namespace BatchJob

def layout : Layout :=
  .record [("jobID", .scalar), ("jobType", .scalar), ("startTime", .scalar), ("lastUpdate", .scalar),
    ("retryAttempts", .scalar), ("complete", .scalar), ("failed", .scalar),
    ("replicate", ReplicationProgress.record.flatLayout), ("rotation", WalkProgress.record.flatLayout),
    ("expired", WalkProgress.record.flatLayout)]

theorem hasLayout : codec.HasLayout layout :=
  Record.hasLayout (by decide) <| .cons ⟨rfl, .text⟩ <| .cons ⟨rfl, .text⟩ <| .cons ⟨rfl, .timestamp⟩ <|
    .cons ⟨rfl, .timestamp⟩ <| .cons ⟨rfl, .integer⟩ <| .cons ⟨rfl, .bool⟩ <| .cons ⟨rfl, .bool⟩ <|
    .cons ⟨rfl, .optionalRecord ReplicationProgress.hasLayout⟩ <|
    .cons ⟨rfl, .optionalRecord WalkProgress.hasLayout⟩ <| .cons ⟨rfl, .optionalRecord WalkProgress.hasLayout⟩ .nil

end BatchJob

namespace BatchJobMetrics

def layout : Layout := .record [("collected", .scalar), ("jobs", .map true BatchJob.layout)]

theorem hasLayout : codec.HasLayout layout :=
  Record.hasLayout (by decide) <| .cons ⟨rfl, .timestamp⟩ <| .cons ⟨rfl, .keyMapOrDefault BatchJob.hasLayout⟩ .nil

end BatchJobMetrics

namespace SiteResyncMetrics

def layout : Layout :=
  .record [("collected", .scalar), ("resyncStatus", .scalar), ("startTime", .scalar), ("lastUpdate", .scalar),
    ("numBuckets", .scalar), ("resyncID", .scalar), ("deplID", .scalar), ("completeReplicationSize", .scalar),
    ("replicationCount", .scalar), ("failedReplicationSize", .scalar), ("failedReplicationCount", .scalar),
    ("failedBuckets", .list true .scalar), ("bucket", .scalar), ("object", .scalar)]

theorem hasLayout : codec.HasLayout layout :=
  Record.hasLayout (by decide) <| .cons ⟨rfl, .timestamp⟩ <| .cons ⟨rfl, .text⟩ <| .cons ⟨rfl, .timestamp⟩ <|
    .cons ⟨rfl, .timestamp⟩ <| .cons ⟨rfl, .integer⟩ <| .cons ⟨rfl, .text⟩ <| .cons ⟨rfl, .text⟩ <|
    .cons ⟨rfl, .integer⟩ <| .cons ⟨rfl, .integer⟩ <| .cons ⟨rfl, .integer⟩ <| .cons ⟨rfl, .integer⟩ <|
    .cons ⟨rfl, .listOrDefault .text⟩ <| .cons ⟨rfl, .text⟩ <| .cons ⟨rfl, .text⟩ .nil

end SiteResyncMetrics

namespace NetworkMetrics

def layout : Layout :=
  .record [("collected", .scalar), ("interfaceName", .scalar), ("netstats", InterfaceCounters.record.flatLayout)]

theorem hasLayout : codec.HasLayout layout :=
  Record.hasLayout (by decide) <| .cons ⟨rfl, .timestamp⟩ <| .cons ⟨rfl, .text⟩ <|
    .cons ⟨rfl, InterfaceCounters.hasLayout⟩ .nil

end NetworkMetrics

namespace MemoryMetrics

def layout : Layout := .record [("collected", .scalar), ("memInfo", MemoryUse.record.flatLayout)]

theorem hasLayout : codec.HasLayout layout :=
  Record.hasLayout (by decide) <| .cons ⟨rfl, .timestamp⟩ <| .cons ⟨rfl, MemoryUse.hasLayout⟩ .nil

end MemoryMetrics

namespace CpuMetrics

def layout : Layout :=
  .record [("collected", .scalar), ("timesStat", CpuTimes.record.flatLayout),
    ("loadStat", LoadAverages.record.flatLayout), ("cpuCount", .scalar)]

theorem hasLayout : codec.HasLayout layout :=
  Record.hasLayout (by decide) <| .cons ⟨rfl, .timestamp⟩ <| .cons ⟨rfl, .optionalRecord CpuTimes.hasLayout⟩ <|
    .cons ⟨rfl, .optionalRecord LoadAverages.hasLayout⟩ <| .cons ⟨rfl, .integer⟩ .nil

end CpuMetrics

namespace Histogram

def layout : Layout := .record [("Counts", .list true .scalar), ("Buckets", .list true .scalar)]

theorem hasLayout : codec.HasLayout layout :=
  Record.hasLayout (by decide) <| .cons ⟨rfl, .listOrDefault .integer⟩ <| .cons ⟨rfl, .listOrDefault .double⟩ .nil

end Histogram

namespace RuntimeMetrics

def layout : Layout :=
  .record [("uintMetrics", .map true .scalar), ("floatMetrics", .map true .scalar),
    ("histMetrics", .map true Histogram.layout), ("n", .scalar)]

theorem hasLayout : codec.HasLayout layout :=
  Record.hasLayout (by decide) <| .cons ⟨rfl, .keyMapOrDefault .integer⟩ <| .cons ⟨rfl, .keyMapOrDefault .double⟩ <|
    .cons ⟨rfl, .keyMapOrDefault Histogram.hasLayout⟩ <| .cons ⟨rfl, .integer⟩ .nil

end RuntimeMetrics

/-! ### Frames and replies -/

namespace MetricBundle

def layout : Layout :=
  .record [("scanner", ScannerMetrics.layout), ("disk", DriveMetrics.layout), ("os", OsMetrics.layout),
    ("batchJobs", BatchJobMetrics.layout), ("siteResync", SiteResyncMetrics.layout), ("net", NetworkMetrics.layout),
    ("mem", MemoryMetrics.layout), ("cpu", CpuMetrics.layout), ("rpc", .calls), ("go", RuntimeMetrics.layout)]

theorem hasLayout : codec.HasLayout layout :=
  Record.hasLayout (by decide) <| .cons ⟨rfl, .optionalRecord ScannerMetrics.hasLayout⟩ <|
    .cons ⟨rfl, .optionalRecord DriveMetrics.hasLayout⟩ <| .cons ⟨rfl, .optionalRecord OsMetrics.hasLayout⟩ <|
    .cons ⟨rfl, .optionalRecord BatchJobMetrics.hasLayout⟩ <|
    .cons ⟨rfl, .optionalRecord SiteResyncMetrics.hasLayout⟩ <|
    .cons ⟨rfl, .optionalRecord NetworkMetrics.hasLayout⟩ <|
    .cons ⟨rfl, .optionalRecord MemoryMetrics.hasLayout⟩ <| .cons ⟨rfl, .optionalRecord CpuMetrics.hasLayout⟩ <|
    .cons ⟨rfl, RpcMetrics.hasLayout.option Layout.Nulled.eq_of_calls⟩ <|
    .cons ⟨rfl, .optionalRecord RuntimeMetrics.hasLayout⟩ .nil

end MetricBundle

namespace Frame

def layout : Layout :=
  .record [("errors", .list true .scalar), ("hosts", .list true .scalar), ("aggregated", MetricBundle.layout),
    ("by_host", .map true MetricBundle.layout), ("by_disk", .map true DriveMetrics.layout), ("final", .scalar)]

theorem hasLayout : codec.HasLayout layout :=
  Record.hasLayout (by decide) <| .cons ⟨rfl, .listOrDefault .text⟩ <| .cons ⟨rfl, .listOrDefault .text⟩ <|
    .cons ⟨rfl, MetricBundle.hasLayout⟩ <| .cons ⟨rfl, .keyMapOrDefault MetricBundle.hasLayout⟩ <|
    .cons ⟨rfl, .keyMapOrDefault DriveMetrics.hasLayout⟩ <| .cons ⟨rfl, .bool⟩ .nil

end Frame

namespace NodeReport

/-- The drives do not take `null`. -/
def layout : Layout :=
  .record [("addr", .scalar), ("error", .scalar), ("metrics", MetricBundle.layout),
    ("by_disk", .map false DriveMetrics.layout)]

theorem hasLayout : codec.HasLayout layout :=
  Record.hasLayout (by decide) <| .cons ⟨rfl, .text⟩ <| .cons ⟨rfl, .text⟩ <|
    .cons ⟨rfl, MetricBundle.hasLayout⟩ <| .cons ⟨rfl, .keyMap DriveMetrics.hasLayout⟩ .nil

end NodeReport

namespace NodeLatency

def layout : Layout :=
  .record [("addr", .scalar), ("error", .scalar), ("timings", LatencySummary.record.flatLayout)]

theorem hasLayout : codec.HasLayout layout :=
  Record.hasLayout (by decide) <| .cons ⟨rfl, .text⟩ <| .cons ⟨rfl, .text⟩ <|
    .cons ⟨rfl, LatencySummary.hasLayout⟩ .nil

end NodeLatency

/-! ### All types -/

/-- A type of values that are exchanged as JSON, and where it holds lists and maps. -/
structure LaidOutType where
  Value : Type
  codec : Codec Value
  layout : Layout

namespace LaidOutType

def all : List LaidOutType := [
  ⟨Frame, Frame.codec, Frame.layout⟩, ⟨MetricBundle, MetricBundle.codec, MetricBundle.layout⟩,
  ⟨ScannerMetrics, ScannerMetrics.codec, ScannerMetrics.layout⟩, ⟨DriveMetrics, DriveMetrics.codec, DriveMetrics.layout⟩,
  ⟨BlockDeviceCounters, BlockDeviceCounters.codec, BlockDeviceCounters.record.flatLayout⟩,
  ⟨OsMetrics, OsMetrics.codec, OsMetrics.layout⟩, ⟨BatchJobMetrics, BatchJobMetrics.codec, BatchJobMetrics.layout⟩,
  ⟨SiteResyncMetrics, SiteResyncMetrics.codec, SiteResyncMetrics.layout⟩,
  ⟨NetworkMetrics, NetworkMetrics.codec, NetworkMetrics.layout⟩,
  ⟨MemoryMetrics, MemoryMetrics.codec, MemoryMetrics.layout⟩, ⟨CpuMetrics, CpuMetrics.codec, CpuMetrics.layout⟩,
  ⟨RpcMetrics, RpcMetrics.codec, .calls⟩, ⟨RuntimeMetrics, RuntimeMetrics.codec, RuntimeMetrics.layout⟩,
  ⟨OperationTotals, OperationTotals.codec, OperationTotals.record.flatLayout⟩,
  ⟨NodeStatus, NodeStatus.codec, NodeStatus.record.flatLayout⟩, ⟨NodeReport, NodeReport.codec, NodeReport.layout⟩,
  ⟨NodeLatency, NodeLatency.codec, NodeLatency.layout⟩,
  ⟨LatencySummary, LatencySummary.codec, LatencySummary.record.flatLayout⟩, ⟨Timestamp, Timestamp.codec, .scalar⟩,
  ⟨CategoryMask, CategoryMask.codec, .scalar⟩, ⟨BatchJob, BatchJob.codec, BatchJob.layout⟩,
  ⟨BucketScan, BucketScan.codec, BucketScan.layout⟩, ⟨Histogram, Histogram.codec, Histogram.layout⟩,
  ⟨MemoryUse, MemoryUse.codec, MemoryUse.record.flatLayout⟩]

theorem hasLayout : ∀ t ∈ all, t.codec.HasLayout t.layout := by
  simp only [all, List.forall_mem_cons]
  exact ⟨Frame.hasLayout, MetricBundle.hasLayout, ScannerMetrics.hasLayout, DriveMetrics.hasLayout,
    BlockDeviceCounters.hasLayout, OsMetrics.hasLayout, BatchJobMetrics.hasLayout, SiteResyncMetrics.hasLayout,
    NetworkMetrics.hasLayout, MemoryMetrics.hasLayout, CpuMetrics.hasLayout, RpcMetrics.hasLayout,
    RuntimeMetrics.hasLayout, OperationTotals.hasLayout, NodeStatus.hasLayout, NodeReport.hasLayout,
    NodeLatency.hasLayout, LatencySummary.hasLayout, .timestamp, CategoryMask.hasLayout, BatchJob.hasLayout,
    BucketScan.hasLayout, Histogram.hasLayout, MemoryUse.hasLayout, nofun⟩

/-- After any number of empty lists and maps of a text were replaced by `null`, it is read as the same value if all of
them take `null`, and else not at all. -/
theorem decode?_nulled : ∀ t ∈ all, ∀ bytes before a, Json.parse? bytes = some before → t.codec.decode? bytes = some a →
    ∀ refused after, t.layout.Nulled refused before after →
      (∃ text, Json.parse? text = some after) ∧
        ∀ text, Json.parse? text = some after → t.codec.decode? text = if refused then none else some a := by
  intro t ht bytes before a hbytes ha refused after hnulled
  have hafter := hnulled.wellFormed (Json.wellFormed_of_parse? hbytes)
  refine ⟨⟨after.compact, Json.parse?_compact hafter⟩, fun text htext => ?_⟩
  rw [Codec.decode?, hbytes, Option.bind_some] at ha
  rw [Codec.decode?, htext, Option.bind_some]
  exact (hasLayout t ht).read_nulled hnulled ha

/-- A frame with a list and, in the calls of one host, a map. -/
def sparse (hosts callers : Json) : Json :=
  .object [(Json.encodeText "hosts", hosts), (Json.encodeText "by_host", .object [(Json.encodeText "n1",
    .object [(Json.encodeText "rpc", .object [(Json.encodeText "byCaller", callers)])])])]

theorem nulled_sparse : Frame.layout.Nulled false (sparse (.array []) (.object [])) (sparse .null .null) := by
  have hmember : ∀ {fields : List (String × Layout)} {name : String} {l : Layout} {refused : Bool} {before after : Json},
      (fields.map (·.1)).Nodup → (name, l) ∈ fields → l.Nulled refused before after →
        (Layout.ofMember fields (Json.encodeText name)).Nulled refused before after := fun hnames hp h => by
    rwa [Layout.ofMember_of_mem hnames hp (Json.decodeText?_encodeText _)]
  have hone : ∀ {fields : List (String × Layout)} {name : String} {l : Layout} {before after : Json},
      (fields.map (·.1)).Nodup → (name, l) ∈ fields → l.Nulled false before after →
        (Layout.record fields).Nulled false (.object [(Json.encodeText name, before)])
          (.object [(Json.encodeText name, after)]) := fun hnames hp h =>
    @Layout.Nulled.members _ [(_, ⟨_, _, false⟩)] (List.forall_mem_singleton.2 (hmember hnames hp h))
  have hcalls : Layout.calls.Nulled false (.object [(Json.encodeText "byCaller", .object [])])
      (.object [(Json.encodeText "byCaller", .null)]) :=
    .calls (hone (by decide) (List.mem_append_right _ (List.mem_cons_of_mem _ List.mem_cons_self))
      (.emptyMap true .calls))
  have hbundle : MetricBundle.layout.Nulled false
      (.object [(Json.encodeText "rpc", .object [(Json.encodeText "byCaller", .object [])])])
      (.object [(Json.encodeText "rpc", .object [(Json.encodeText "byCaller", .null)])]) :=
    hone (by decide) (List.mem_of_getElem? (i := 8) rfl) hcalls
  have hbyHost : (Layout.map true MetricBundle.layout).Nulled false
      (.object [(Json.encodeText "n1",
        .object [(Json.encodeText "rpc", .object [(Json.encodeText "byCaller", .object [])])])])
      (.object [(Json.encodeText "n1",
        .object [(Json.encodeText "rpc", .object [(Json.encodeText "byCaller", .null)])])]) :=
    @Layout.Nulled.map true _ [(_, ⟨_, _, false⟩)] (List.forall_mem_singleton.2 hbundle)
  refine @Layout.Nulled.members _ [(Json.encodeText "hosts", ⟨_, _, false⟩), (Json.encodeText "by_host", ⟨_, _, false⟩)]
    (List.forall_mem_cons.2 ⟨?_, List.forall_mem_singleton.2 ?_⟩)
  · exact hmember (by decide) (List.mem_of_getElem? (i := 1) rfl) (.emptyList true .scalar)
  · exact hmember (by decide) (List.mem_of_getElem? (i := 3) rfl) hbyHost

theorem decode?_nulled_sparse : ∃ f, Frame.codec.decode? (sparse (.array []) (.object [])).compact = some f ∧
    Frame.codec.decode? (sparse .null .null).compact = some f := by
  obtain ⟨f, hf⟩ : ∃ f, Frame.codec.decode? (sparse (.array []) (.object [])).compact = some f :=
    Option.isSome_iff_exists.1 (by decide +kernel)
  exact ⟨f, hf, (decode?_nulled _ List.mem_cons_self _ _ f rfl hf false _ nulled_sparse).2 _ rfl⟩

/-- The drives of a node's reply and the scans of one bucket do not take `null`. -/
theorem decode?_nullDrives :
    (NodeReport.codec.decode? (utf8Bytes "\x7b\"by_disk\":\x7b\x7d\x7d")).isSome = true ∧
      NodeReport.codec.decode? (utf8Bytes "\x7b\"by_disk\":null\x7d") = none ∧
      (ScannerMetrics.codec.decode? (utf8Bytes "\x7b\"per_bucket_stats\":\x7b\"b\":[]\x7d\x7d")).isSome = true ∧
      ScannerMetrics.codec.decode? (utf8Bytes "\x7b\"per_bucket_stats\":\x7b\"b\":null\x7d\x7d") = none :=
  ⟨by decide +kernel, Option.isNone_iff_eq_none.1 (by decide +kernel), by decide +kernel,
    Option.isNone_iff_eq_none.1 (by decide +kernel)⟩

end LaidOutType

end ClusterMetrics
