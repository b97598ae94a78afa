import ClusterMetrics.Metrics.Bundle
import ClusterMetrics.Proofs.Merge.Keys
import ClusterMetrics.Proofs.Merge.Sums
import ClusterMetrics.Proofs.SortedTexts
import ClusterMetrics.Proofs.Timestamps

/-! # Records that absorb field by field

For every record of metrics the fields that absorb each for itself, in the order of its merge (`inTurn` in its
namespace), so that they are its parts (`splits`). A merge fails only if one of them does. Fields that are left out
depend on others, or on what came first. -/

namespace ClusterMetrics
open CheckedAdd (add?)

/-! ### Operations -/

namespace OperationTotals
variable {a b : OperationTotals}

def counters : List (OperationTotals → UInt64) := [count, time, bytes]

theorem ext_counters (h : ∀ f ∈ counters, f a = f b) : a = b := by
  cases a
  cases b
  simpa [counters] using h

theorem inTurn (a b : OperationTotals) :
    InTurn a b (Part.fields counters add?) (fun _ => True) (merge? a b) := by
  rw [merge?]
  simp only [counters, Part.fields_cons, Part.fields_nil]
  repeat refine .step fun _ => ?_
  exact .done (by simp)

theorem splits : Splits merge? (Part.fields counters add?) := .of_inTurn inTurn

end OperationTotals

namespace LastMinute

theorem inTurn (a b : LastMinute) :
    InTurn a b {.field operations Merge.byKey?} (fun _ => True) (merge? a b) := by
  rw [merge?, ← insert_empty_eq]
  exact .step fun _ => .done (by simp)

theorem splits : Splits merge? {.field operations Merge.byKey?} := .of_inTurn inTurn

end LastMinute

/-! ### Drives and the operating system -/

namespace BlockDeviceCounters
variable {a b : BlockDeviceCounters}

def counters : List (BlockDeviceCounters → UInt64) :=
  [readIos, readMerges, readSectors, readTicks, writeIos, writeMerges, writeSectors, writeTicks, currentIos,
    totalTicks, requestTicks, discardIos, discardMerges, discardSectors, discardTicks, flushIos, flushTicks]

theorem ext_counters (h : ∀ f ∈ counters, f a = f b) : a = b := by
  cases a
  cases b
  simpa [counters] using h

theorem inTurn (a b : BlockDeviceCounters) :
    InTurn a b (Part.fields counters add?) (fun _ => True) (merge? a b) := by
  rw [merge?]
  simp only [counters, Part.fields_cons, Part.fields_nil]
  repeat refine .step fun _ => ?_
  exact .done (by simp)

theorem splits : Splits merge? (Part.fields counters add?) := .of_inTurn inTurn

end BlockDeviceCounters

namespace DriveMetrics

def parts : Set (Part DriveMetrics DriveMetrics) :=
  {.total collected .latest, .field drives add?, .field offline add?, .field healing add?,
    .field lifeTime Merge.sumByKey?, .field lastMinute LastMinute.merge?, .field device BlockDeviceCounters.merge?}

theorem inTurn (a b : DriveMetrics) : InTurn a b parts (fun _ => True) (merge? a b) := by
  rw [parts, merge?, ← insert_empty_eq]
  refine .total rfl ?_
  repeat refine .step fun _ => ?_
  exact .done (by simp)

theorem splits : Splits merge? parts := .of_inTurn inTurn

end DriveMetrics

namespace OsMetrics

def parts : Set (Part OsMetrics OsMetrics) :=
  {.total collected .latest, .field lifeTime Merge.sumByKey?, .field lastMinute LastMinute.merge?}

theorem inTurn (a b : OsMetrics) : InTurn a b parts (fun _ => True) (merge? a b) := by
  rw [parts, merge?, ← insert_empty_eq]
  refine .total rfl ?_
  repeat refine .step fun _ => ?_
  exact .done (by simp)

theorem splits : Splits merge? parts := .of_inTurn inTurn

end OsMetrics

/-! ### The scanner -/

namespace ScannerMetrics

def parts : Set (Part ScannerMetrics ScannerMetrics) :=
  {.total collected .latest, .total cycle max, .total ongoingBuckets max, .total perBucket mergePerBucket,
    .total active mergeActive, .field lifeTime Merge.sumByKey?, .field lifeTimeLifecycle Merge.sumByKey?,
    .field (·.lastMinute.actions) Merge.byKey?, .field (·.lastMinute.lifecycle) Merge.byKey?}

theorem inTurn (a b : ScannerMetrics) :
    InTurn a b parts
      (fun c => c.started = (if a.cycle < b.cycle then b.started else a.started) ∧ c.completed = a.mergeCompleted b)
      (merge? a b) := by
  rw [parts, merge?, ← insert_empty_eq]
  iterate 5 refine .total rfl ?_
  repeat refine .step fun _ => ?_
  exact .done (by simp)

theorem splits : Splits merge? parts := .of_inTurn inTurn

theorem tracks_parts : Tracks merge? (.total collected .latest) ∧ Tracks merge? (.total cycle max) ∧
    Tracks merge? (.total ongoingBuckets max) ∧ Tracks merge? (.total perBucket mergePerBucket) ∧
    Tracks merge? (.total active mergeActive) ∧ Tracks merge? (.field lifeTime Merge.sumByKey?) ∧
    Tracks merge? (.field lifeTimeLifecycle Merge.sumByKey?) ∧
    Tracks merge? (.field (·.lastMinute.actions) Merge.byKey?) ∧
    Tracks merge? (.field (·.lastMinute.lifecycle) Merge.byKey?) := by
  have htracks := splits.tracks
  simpa only [parts, Set.forall_mem_insert, Set.mem_singleton_iff, forall_eq] using htracks

theorem mergeActive_right_comm (a b c : List String) :
    mergeActive (mergeActive a b) c = mergeActive (mergeActive a c) b := by
  have hperm : ∀ b c : List String, (Merge.sortTexts (a ++ b) ++ c).Perm (a ++ b ++ c) := by
    intro b c
    exact (Merge.sortTexts_perm (a ++ b)).append_right c
  cases b with
  | nil => rfl
  | cons s b =>
    cases c with
    | nil => rfl
    | cons t c =>
      have hswap : (a ++ (s :: b) ++ (t :: c)).Perm (a ++ (t :: c) ++ (s :: b)) := by
        rw [List.append_assoc, List.append_assoc]
        exact List.perm_append_comm.append_left a
      exact Merge.sortTexts_congr ((hperm _ _).trans (hswap.trans (hperm _ _).symm))

end ScannerMetrics

/-! ### Jobs and resync -/

namespace BatchJobMetrics

/-- The time of collection after a report, which counts if the report has jobs. -/
def collectedAfter (t : Timestamp) (b : BatchJobMetrics) : Timestamp :=
  if b.jobs.isEmpty then t else t.latest b.collected

theorem collectedAfter_right_comm (t : Timestamp) (b c : BatchJobMetrics) :
    collectedAfter (collectedAfter t b) c = collectedAfter (collectedAfter t c) b := by
  simp only [collectedAfter]
  split <;> split
  iterate 3 rfl
  exact Timestamp.latest_right_comm ..

theorem collected_merge (a b : BatchJobMetrics) : (a.merge b).collected = collectedAfter a.collected b := by
  rw [merge, collectedAfter]
  split <;> rfl

theorem jobs_merge (a b : BatchJobMetrics) : (a.merge b).jobs = a.jobs.overwrite b.jobs := by
  rw [merge]
  split
  next hempty =>
    have hnil : b.jobs.entries = [] := List.isEmpty_iff.1 hempty
    rw [KeyMap.overwrite, hnil, List.foldl_nil]
  next => rfl

theorem tracks_collected :
    Tracks (Merge.merge? : BatchJobMetrics → _) ⟨collected, id, fun t b => some (collectedAfter t b)⟩ := by
  intro a b c h
  obtain rfl := Option.some.inj h
  exact congrArg some (collected_merge a b).symm

theorem tracks_jobs : Tracks (Merge.merge? : BatchJobMetrics → _) (.total jobs .overwrite) := by
  intro a b c h
  obtain rfl := Option.some.inj h
  exact congrArg some (jobs_merge a b).symm

end BatchJobMetrics

namespace SiteResyncMetrics

theorem collected_merge (a b : SiteResyncMetrics) : (a.merge b).collected = a.collected.latest b.collected := by
  rw [merge, Timestamp.latest]
  cases ha : a.collected with
  | zero =>
    rw [Timestamp.isZero, Bool.true_or, if_pos rfl]
    cases b.collected <;> rfl
  | instant i =>
    rw [Timestamp.isZero, Bool.false_or]
    split
    · rfl
    · exact ha

theorem tracks_collected : Tracks (Merge.merge? : SiteResyncMetrics → _) (.total collected .latest) := by
  intro a b c h
  obtain rfl := Option.some.inj h
  exact congrArg some (collected_merge a b).symm

end SiteResyncMetrics

/-! ### Network, memory, processors -/

namespace InterfaceCounters

def counters : List (InterfaceCounters → UInt64) :=
  [rxBytes, rxPackets, rxErrors, rxDropped, rxFifo, rxFrame, rxCompressed, rxMulticast, txBytes, txPackets, txErrors,
    txDropped, txFifo, txCollisions, txCarrier, txCompressed]

theorem inTurn (a b : InterfaceCounters) :
    InTurn a b (Part.fields counters add?) (fun c => c.name = Merge.firstNonempty a.name b.name)
      (merge? a b) := by
  rw [merge?]
  simp only [counters, Part.fields_cons, Part.fields_nil]
  repeat refine .step fun _ => ?_
  exact .done (by simp)

theorem splits : Splits merge? (Part.fields counters add?) := .of_inTurn inTurn

end InterfaceCounters

namespace NetworkMetrics

theorem inTurn (a b : NetworkMetrics) :
    InTurn a b {.total collected .latest, .field counters InterfaceCounters.merge?}
      (fun c => c.interface = Merge.firstNonempty a.interface b.interface) (merge? a b) := by
  rw [merge?, ← insert_empty_eq]
  exact .total rfl <| .step fun _ => .done (by simp)

theorem splits : Splits merge? {.total collected .latest, .field counters InterfaceCounters.merge?} :=
  .of_inTurn inTurn

end NetworkMetrics

namespace MemoryUse

def counters : List (MemoryUse → UInt64) :=
  [total, used, free, available, shared, cache, buffers, swapTotal, swapFree, limit]

theorem inTurn (a b : MemoryUse) :
    InTurn a b (Part.fields counters add?)
      (fun c => c.node.address = Merge.firstNonempty a.node.address b.node.address ∧
        c.node.error = Merge.firstNonempty a.node.error b.node.error)
      (merge? a b) := by
  rw [merge?]
  simp only [counters, Part.fields_cons, Part.fields_nil]
  repeat refine .step fun _ => ?_
  exact .done (by simp)

theorem splits : Splits merge? (Part.fields counters add?) := .of_inTurn inTurn

end MemoryUse

namespace MemoryMetrics

theorem inTurn (a b : MemoryMetrics) :
    InTurn a b {.total collected .latest, .field memory MemoryUse.merge?} (fun _ => True) (merge? a b) := by
  rw [merge?, ← insert_empty_eq]
  exact .total rfl <| .step fun _ => .done (by simp)

theorem splits : Splits merge? {.total collected .latest, .field memory MemoryUse.merge?} := .of_inTurn inTurn

end MemoryMetrics

namespace CpuMetrics

theorem inTurn (a b : CpuMetrics) :
    InTurn a b {.total collected .latest, .field count add?} (fun _ => True) (merge? a b) := by
  -- Times and loads are added up as doubles, so they are never in the way.
  obtain ⟨times, htimes⟩ := Option.isSome_iff_exists.1 (Merge.isSome_slot? (fun _ _ => rfl) a.times b.times)
  obtain ⟨load, hload⟩ := Option.isSome_iff_exists.1 (Merge.isSome_slot? (fun _ _ => rfl) a.load b.load)
  rw [merge?, htimes, hload, ← insert_empty_eq]
  exact .total rfl <| .step fun _ => .done (by simp)

theorem splits : Splits merge? {.total collected .latest, .field count add?} := .of_inTurn inTurn

end CpuMetrics

/-! ### Processes -/

namespace RuntimeMetrics

def parts : Set (Part RuntimeMetrics RuntimeMetrics) :=
  {.field integers Merge.sumByKey?, .field doubles Merge.sumByKey?, .field histograms Merge.byKey?, .field count add?}

theorem inTurn (a b : RuntimeMetrics) : InTurn a b parts (fun _ => True) (merge? a b) := by
  rw [parts, merge?, ← insert_empty_eq]
  repeat refine .step fun _ => ?_
  exact .done (by simp)

theorem splits : Splits merge? parts := .of_inTurn inTurn

theorem tracks_parts : Tracks merge? (.field integers Merge.sumByKey?) ∧
    Tracks merge? (.field doubles Merge.sumByKey?) ∧ Tracks merge? (.field histograms Merge.byKey?) ∧
    Tracks merge? (.field count add?) := by
  have htracks := splits.tracks
  simpa only [parts, Set.forall_mem_insert, Set.mem_singleton_iff, forall_eq] using htracks

end RuntimeMetrics

/-! ### Calls, without those of peers -/

namespace RpcCounters

def counters : List (RpcCounters → Int64) :=
  [connected, disconnected, reconnects, outgoingStreams, incomingStreams, outgoingBytes, incomingBytes,
    outgoingMessages, incomingMessages, outQueue]

def parts : Set (Part RpcCounters RpcCounters) :=
  {.total collected .latest, .total lastConnect .latest, .total lastPong .latest} ∪ Part.fields counters add?

theorem inTurn (a b : RpcCounters) :
    InTurn a b parts (fun c => c.lastPing = if a.lastPong.lt b.lastPong then b.lastPing else a.lastPing)
      (merge? a b) := by
  rw [merge?]
  simp only [parts, counters, Part.fields_cons, Part.fields_nil, Set.insert_union, Set.singleton_union]
  iterate 3 refine .total rfl ?_
  repeat refine .step fun _ => ?_
  exact .done (by simp)

theorem splits : Splits merge? parts := .of_inTurn inTurn

theorem tracks_times : Tracks merge? (.total collected .latest) ∧ Tracks merge? (.total lastConnect .latest) ∧
    Tracks merge? (.total lastPong .latest) :=
  ⟨splits.tracks _ (.inl (.inl rfl)), splits.tracks _ (.inl (.inr (.inl rfl))),
    splits.tracks _ (.inl (.inr (.inr rfl)))⟩

/-- Only counters can be in the way of a merge. -/
theorem isSome_merge? {a b : RpcCounters} (h : ∀ f ∈ counters, (add? (f a) (f b)).isSome) : (merge? a b).isSome := by
  refine splits.isSome ?_
  rintro p ((rfl | rfl | rfl) | ⟨f, hf, rfl⟩)
  case inr => exact h f hf
  all_goals rfl

end RpcCounters

/-! ### Bundles -/

namespace MetricBundle

def parts : Set (Part MetricBundle MetricBundle) :=
  {.field scanner Merge.slot?, .field disk Merge.slot?, .field os Merge.slot?, .field batchJobs Merge.slot?,
    .field siteResync Merge.slot?, .field network Merge.slot?, .field memory Merge.slot?, .field cpu Merge.slot?,
    .field rpc Merge.slot?, .field runtime Merge.slot?}

theorem inTurn (a b : MetricBundle) : InTurn a b parts (fun _ => True) (merge? a b) := by
  rw [parts, merge?, ← insert_empty_eq]
  repeat refine .step fun _ => ?_
  exact .done (by simp)

theorem splits : Splits merge? parts := .of_inTurn inTurn

theorem tracks_slots : Tracks merge? (.field scanner Merge.slot?) ∧ Tracks merge? (.field disk Merge.slot?) ∧
    Tracks merge? (.field os Merge.slot?) ∧ Tracks merge? (.field batchJobs Merge.slot?) ∧
    Tracks merge? (.field siteResync Merge.slot?) ∧ Tracks merge? (.field network Merge.slot?) ∧
    Tracks merge? (.field memory Merge.slot?) ∧ Tracks merge? (.field cpu Merge.slot?) ∧
    Tracks merge? (.field rpc Merge.slot?) ∧ Tracks merge? (.field runtime Merge.slot?) := by
  have htracks := splits.tracks
  simpa only [parts, Set.forall_mem_insert, Set.mem_singleton_iff, forall_eq] using htracks

end MetricBundle

end ClusterMetrics
