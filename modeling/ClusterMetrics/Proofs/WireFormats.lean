import ClusterMetrics.Category.Codec
import ClusterMetrics.Proofs.Json.KeptFrames

/-! # The wire format loses nothing

Every storable value of every type that is exchanged is read again as it was written, in either layout
(`WireFormat.decode?_encoded`). Where trees of calls are held the containers of the text must not be nested deeper than
the reader goes; no other text is. -/

namespace ClusterMetrics

theorem CategoryMask.keeps (m : CategoryMask) : codec.Keeps m := by
  have hkept := Codec.Keeps.uint32 m.bits
  exact ⟨hkept.wellFormed, fun hdepth => congrArg (Option.map CategoryMask.mk) (hkept.read_write hdepth)⟩

/-- A type of values that are exchanged as JSON. -/
structure WireFormat where
  Value : Type
  codec : Codec Value
  /-- Which values must be read again as they were written. -/
  Storable : Value → Prop

namespace WireFormat

/-- A type whose texts are nested so deep only as the reader goes. -/
def shallow {α : Type} (codec : Codec α) (Storable : α → Prop) : WireFormat := ⟨α, codec, Storable⟩

/-- A type with trees of calls, of which those are asked for that the reader goes deep enough for. -/
def deep {α : Type} (codec : Codec α) (Storable : α → Prop) : WireFormat :=
  ⟨α, codec, fun a => Storable a ∧ (codec.write a).nesting ≤ Json.depthLimit⟩

def all : List WireFormat := [
  deep Frame.codec Frame.Storable, deep MetricBundle.codec MetricBundle.Storable,
  shallow ScannerMetrics.codec ScannerMetrics.Storable, shallow DriveMetrics.codec DriveMetrics.Storable,
  shallow OsMetrics.codec OsMetrics.Storable, shallow BatchJobMetrics.codec BatchJobMetrics.Storable,
  shallow SiteResyncMetrics.codec SiteResyncMetrics.Storable, shallow NetworkMetrics.codec NetworkMetrics.Storable,
  shallow MemoryMetrics.codec MemoryMetrics.Storable, shallow CpuMetrics.codec CpuMetrics.Storable,
  deep RpcMetrics.codec RpcMetrics.Storable, shallow RuntimeMetrics.codec RuntimeMetrics.Storable,
  shallow NodeStatus.codec fun _ => True, deep NodeReport.codec NodeReport.Storable,
  shallow NodeLatency.codec NodeLatency.Storable, shallow MemoryUse.codec fun _ => True,
  shallow LatencySummary.codec LatencySummary.Storable, shallow BatchJob.codec BatchJob.Storable,
  shallow BucketScan.codec BucketScan.Storable, shallow Histogram.codec Histogram.Storable,
  shallow CategoryMask.codec fun _ => True]

/-- Both texts of the value are read as it. -/
def IsReadBack (w : WireFormat) (v : w.Value) : Prop :=
  w.codec.decode? (w.codec.compact v) = some v ∧ w.codec.decode? (w.codec.pretty v) = some v

variable {α : Type} {codec : Codec α} {Storable : α → Prop}

theorem isReadBack_deep (h : ∀ {a}, Storable a → codec.Keeps a) (a : α) (ha : (deep codec Storable).Storable a) :
    (deep codec Storable).IsReadBack a := (h ha.1).decode?_eq ha.2

theorem isReadBack_shallow (h : ∀ {a}, Storable a → codec.Keeps a) (hdepth : codec.NestsWithin Json.depthLimit) (a : α)
    (ha : (shallow codec Storable).Storable a) : (shallow codec Storable).IsReadBack a := (h ha).decode?_eq (hdepth a)

/-- No value is lost on the wire. -/
theorem decode?_encoded : ∀ w ∈ all, ∀ v, w.Storable v → w.IsReadBack v := by
  simp only [all, List.forall_mem_cons]
  exact ⟨isReadBack_deep Frame.Storable.keeps, isReadBack_deep MetricBundle.Storable.keeps,
    isReadBack_shallow ScannerMetrics.Storable.keeps ScannerMetrics.nestsWithin,
    isReadBack_shallow DriveMetrics.Storable.keeps DriveMetrics.nestsWithin,
    isReadBack_shallow OsMetrics.Storable.keeps OsMetrics.nestsWithin,
    isReadBack_shallow BatchJobMetrics.Storable.keeps BatchJobMetrics.nestsWithin,
    isReadBack_shallow SiteResyncMetrics.Storable.keeps SiteResyncMetrics.nestsWithin,
    isReadBack_shallow NetworkMetrics.Storable.keeps NetworkMetrics.nestsWithin,
    isReadBack_shallow MemoryMetrics.Storable.keeps MemoryMetrics.nestsWithin,
    isReadBack_shallow CpuMetrics.Storable.keeps CpuMetrics.nestsWithin,
    isReadBack_deep RpcMetrics.Storable.keeps,
    isReadBack_shallow RuntimeMetrics.Storable.keeps RuntimeMetrics.nestsWithin,
    isReadBack_shallow (fun _ => NodeStatus.keeps _) NodeStatus.nestsWithin,
    isReadBack_deep NodeReport.Storable.keeps,
    isReadBack_shallow NodeLatency.Storable.keeps NodeLatency.nestsWithin,
    isReadBack_shallow (fun _ => MemoryUse.keeps _) MemoryUse.nestsWithin,
    isReadBack_shallow LatencySummary.Storable.keeps LatencySummary.nestsWithin,
    isReadBack_shallow BatchJob.Storable.keeps BatchJob.nestsWithin,
    isReadBack_shallow BucketScan.Storable.keeps BucketScan.nestsWithin,
    isReadBack_shallow Histogram.Storable.keeps Histogram.nestsWithin,
    isReadBack_shallow (fun _ => CategoryMask.keeps _) fun _ => Nat.zero_le _, nofun⟩

/-- A resync that began in a leap second. -/
def leaping : SiteResyncMetrics := { started := .instant ⟨1483228799, 1500000000⟩, failedBuckets := ["b"] }

theorem storable_leaping : leaping.Storable :=
  ⟨trivial, ⟨by decide +kernel, by decide +kernel, .inr ⟨by decide, by decide⟩⟩, trivial⟩

/-- 0.1. -/
def tenth : Binary64 := .finite ⟨false, 0x1999999999999A, 1018, by decide, .inr (by decide), by decide⟩

theorem storable_tenth : tenth.Storable := ⟨⟨_, rfl⟩, by decide +kernel⟩

theorem storable_zero (negative : Bool) : (Binary64.finite (.zero negative)).Storable := by
  refine ⟨⟨_, rfl⟩, ?_⟩
  cases negative <;> decide +kernel

/-- Calls to a peer and its calls. -/
def calls : RpcMetrics :=
  .node { lastPing := tenth } (.ofList [("south", .node { outQueue := -3 } .empty .empty)]) .empty

theorem storable_calls : calls.Storable := by
  have hpeer : (RpcMetrics.node { outQueue := -3 } .empty .empty).Storable :=
    .node ⟨trivial, trivial, storable_zero false, storable_zero false, trivial⟩ nofun nofun
  refine .node ⟨trivial, trivial, storable_tenth, storable_zero false, trivial⟩ ?_ nofun
  exact List.forall_mem_singleton.2 hpeer

/-- Load averages with a negative zero. -/
def loaded : CpuMetrics := { load := some { load1 := tenth, load5 := .finite (.zero true) }, count := -1 }

theorem storable_loaded : loaded.Storable := by
  refine ⟨trivial, fun t ht => absurd ht (Option.not_mem_none t), fun l hl => ?_⟩
  cases hl
  exact ⟨storable_tenth, storable_zero true, storable_zero false⟩

/-- A frame with quotes, control characters and empty texts, a leap second, a negative zero and calls of calls. -/
def recorded : Frame where
  errors := ["\"n2\": \t\u0001 \\ ž", ""]
  hosts := ["n1", ""]
  total := { siteResync := some leaping, cpu := some loaded, rpc := some calls }
  byDisk := .ofList [("/d1", { drives := 2, lifeTime := .ofList [("read", 10)] })]
  isFinal := true

theorem storable_recorded : recorded.Storable := by
  have htotal : recorded.total.Storable := by
    refine ⟨nofun, nofun, nofun, nofun, fun a ha => ?_, nofun, nofun, fun a ha => ?_, fun a ha => ?_, nofun⟩ <;> cases ha
    · exact storable_leaping
    · exact storable_loaded
    · exact storable_calls
  exact ⟨htotal, fun p hp => absurd hp List.not_mem_nil, List.forall_mem_singleton.2 ⟨trivial⟩⟩

theorem isReadBack_recorded : (deep Frame.codec Frame.Storable).IsReadBack recorded :=
  decode?_encoded _ List.mem_cons_self recorded ⟨storable_recorded, by decide +kernel⟩

end WireFormat

end ClusterMetrics
