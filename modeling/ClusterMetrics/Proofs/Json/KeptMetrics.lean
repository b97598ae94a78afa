import ClusterMetrics.Frame
import ClusterMetrics.Proofs.Json.RoundTrips

/-! # Metrics that are read again as they were written

Of each type of metrics but those of calls: which values are storable, that they are kept, and how deep their texts are
nested. A value is storable if its timestamps and its doubles are; texts, counters and maps may be any. -/

namespace ClusterMetrics

/-! ### Operations and drives -/

theorem OperationTotals.keeps (t : OperationTotals) : codec.Keeps t := by
  refine Record.keeps (by decide) ?_
  refine .required (.uint64 _) ?_
  refine .required (.uint64 _) ?_
  refine .counter rfl ?_
  exact .nil

theorem OperationTotals.nestsWithin {n : Nat} : codec.NestsWithin (n + 1) := by
  refine .record ?_
  simp only [record, List.forall_mem_cons]
  exact ⟨.uint64, .uint64, .uint64, nofun⟩

theorem LastMinute.keeps (m : LastMinute) : codec.Keeps m := by
  refine Record.keeps (by decide) ?_
  refine .optionalMap (fun p _ => p.2.keeps) rfl ?_
  exact .nil

theorem LastMinute.nestsWithin {n : Nat} : codec.NestsWithin (n + 3) := by
  refine .record ?_
  simp only [record, List.forall_mem_cons]
  exact ⟨.optionalMap OperationTotals.nestsWithin, nofun⟩

theorem BlockDeviceCounters.keeps (c : BlockDeviceCounters) : codec.Keeps c := by
  refine Record.keeps (by decide) ?_
  iterate 17 refine .plain (.uint64 _) ?_
  exact .nil

theorem BlockDeviceCounters.nestsWithin {n : Nat} : codec.NestsWithin (n + 1) := by
  refine .record ?_
  simp only [record, List.forall_mem_cons]
  iterate 17 refine ⟨.uint64, ?_⟩
  exact nofun

structure DriveMetrics.Storable (d : DriveMetrics) : Prop where
  collected : d.collected.Storable

theorem DriveMetrics.Storable.keeps {d : DriveMetrics} (h : d.Storable) : codec.Keeps d := by
  refine Record.keeps (by decide) ?_
  refine .plain (.timestamp h.collected) ?_
  refine .plain (.uint64 _) ?_
  refine .counter rfl ?_
  refine .counter rfl ?_
  refine .optionalMap (fun p _ => .uint64 p.2) rfl ?_
  refine .plain d.lastMinute.keeps ?_
  refine .plain d.device.keeps ?_
  exact .nil

theorem DriveMetrics.nestsWithin {n : Nat} : codec.NestsWithin (n + 4) := by
  refine .record ?_
  simp only [record, List.forall_mem_cons]
  exact ⟨.timestamp, .uint64, .uint64, .uint64, .optionalMap .uint64, LastMinute.nestsWithin,
    BlockDeviceCounters.nestsWithin, nofun⟩

structure OsMetrics.Storable (o : OsMetrics) : Prop where
  collected : o.collected.Storable

theorem OsMetrics.Storable.keeps {o : OsMetrics} (h : o.Storable) : codec.Keeps o := by
  refine Record.keeps (by decide) ?_
  refine .plain (.timestamp h.collected) ?_
  refine .optionalMap (fun p _ => .uint64 p.2) rfl ?_
  refine .plain o.lastMinute.keeps ?_
  exact .nil

theorem OsMetrics.nestsWithin {n : Nat} : codec.NestsWithin (n + 4) := by
  refine .record ?_
  simp only [record, List.forall_mem_cons]
  exact ⟨.timestamp, .optionalMap .uint64, LastMinute.nestsWithin, nofun⟩

/-! ### The scanner -/

structure BucketScan.Storable (s : BucketScan) : Prop where
  updated : s.updated.Storable
  started : s.started.Storable
  completed : ∀ t ∈ s.completed, t.Storable

theorem BucketScan.Storable.keeps {s : BucketScan} (h : s.Storable) : codec.Keeps s := by
  refine Record.keeps (by decide) ?_
  refine .plain (.int32 _) ?_
  refine .plain (.int32 _) ?_
  refine .plain (.uint64 _) ?_
  refine .plain (.bool _) ?_
  refine .plain (.timestamp h.updated) ?_
  refine .plain (.timestamp h.started) ?_
  refine .optionalText rfl ?_
  refine .optionalList (fun t ht => .timestamp (h.completed t ht)) rfl ?_
  exact .nil

theorem BucketScan.nestsWithin {n : Nat} : codec.NestsWithin (n + 2) := by
  refine .record ?_
  simp only [record, List.forall_mem_cons]
  exact ⟨.int32, .int32, .uint64, .bool, .timestamp, .timestamp, .text, .optionalList .timestamp, nofun⟩

theorem ScannerLastMinute.keeps (m : ScannerLastMinute) : codec.Keeps m := by
  refine Record.keeps (by decide) ?_
  refine .optionalMap (fun p _ => p.2.keeps) rfl ?_
  refine .optionalMap (fun p _ => p.2.keeps) rfl ?_
  exact .nil

theorem ScannerLastMinute.nestsWithin {n : Nat} : codec.NestsWithin (n + 3) := by
  refine .record ?_
  simp only [record, List.forall_mem_cons]
  exact ⟨.optionalMap OperationTotals.nestsWithin, .optionalMap OperationTotals.nestsWithin, nofun⟩

structure ScannerMetrics.Storable (s : ScannerMetrics) : Prop where
  collected : s.collected.Storable
  started : s.started.Storable
  completed : ∀ t ∈ s.completed, t.Storable
  perBucket : ∀ p ∈ s.perBucket.entries, ∀ scan ∈ p.2, scan.Storable

theorem ScannerMetrics.Storable.keeps {s : ScannerMetrics} (h : s.Storable) : codec.Keeps s := by
  have hcompleted : Timestamp.codec.list.Keeps s.completed := .list fun t ht => .timestamp (h.completed t ht)
  have hbuckets : ∀ p ∈ s.perBucket.entries, BucketScan.codec.list.Keeps p.2 := fun p hp =>
    .list fun scan hscan => (h.perBucket p hp scan hscan).keeps
  refine Record.keeps (by decide) ?_
  refine .plain (.timestamp h.collected) ?_
  refine .plain (.uint64 _) ?_
  refine .plain (.timestamp h.started) ?_
  refine .plain (.orDefault hcompleted nofun) ?_
  refine .plain (.uint64 _) ?_
  refine .optionalMap hbuckets rfl ?_
  refine .optionalMap (fun p _ => .uint64 p.2) rfl ?_
  refine .optionalMap (fun p _ => .uint64 p.2) rfl ?_
  refine .plain s.lastMinute.keeps ?_
  refine .optionalList (fun path _ => .text path) rfl ?_
  exact .nil

theorem ScannerMetrics.nestsWithin {n : Nat} : codec.NestsWithin (n + 5) := by
  refine .record ?_
  simp only [record, List.forall_mem_cons]
  exact ⟨.timestamp, .uint64, .timestamp, Codec.NestsWithin.timestamp.list.orDefault, .uint64,
    .optionalMap BucketScan.nestsWithin.list, .optionalMap .uint64, .optionalMap .uint64,
    ScannerLastMinute.nestsWithin, .optionalList .text, nofun⟩

/-! ### Jobs and resync -/

theorem WalkProgress.restores (p : WalkProgress) : Restores p record.fields {} p := by
  refine .plain (.text _) ?_
  refine .plain (.text _) ?_
  refine .plain (.int64 _) ?_
  refine .plain (.int64 _) ?_
  exact .nil

theorem WalkProgress.keeps (p : WalkProgress) : codec.Keeps p := Record.keeps (by decide) p.restores

theorem WalkProgress.forall_nestsWithin {n : Nat} : ∀ f ∈ record.fields, f.codec.NestsWithin n := by
  simp only [record, List.forall_mem_cons]
  exact ⟨.text, .text, .int64, .int64, nofun⟩

theorem WalkProgress.nestsWithin {n : Nat} : codec.NestsWithin (n + 1) := .record forall_nestsWithin

theorem ReplicationProgress.keeps (p : ReplicationProgress) : codec.Keeps p := by
  refine Record.keeps (by decide) ?_
  refine .append (.within (fun _ _ => rfl) (fun _ _ _ => rfl) (fun _ => rfl) p.walk.restores) ?_
  refine .plain (.int64 _) ?_
  refine .plain (.int64 _) ?_
  exact .nil

theorem ReplicationProgress.nestsWithin {n : Nat} : codec.NestsWithin (n + 1) := by
  refine .record (List.forall_mem_append.2 ⟨List.forall_mem_map.2 WalkProgress.forall_nestsWithin, ?_⟩)
  simp only [List.forall_mem_cons]
  exact ⟨.int64, .int64, nofun⟩

structure BatchJob.Storable (j : BatchJob) : Prop where
  started : j.started.Storable
  updated : j.updated.Storable

theorem BatchJob.Storable.keeps {j : BatchJob} (h : j.Storable) : codec.Keeps j := by
  refine Record.keeps (by decide) ?_
  refine .plain (.text _) ?_
  refine .plain (.text _) ?_
  refine .plain (.timestamp h.started) ?_
  refine .plain (.timestamp h.updated) ?_
  refine .plain (.int32 _) ?_
  refine .plain (.bool _) ?_
  refine .plain (.bool _) ?_
  refine .optional (fun p _ => p.keeps) (Record.write_ne_null _) rfl ?_
  refine .optional (fun p _ => p.keeps) (Record.write_ne_null _) rfl ?_
  refine .optional (fun p _ => p.keeps) (Record.write_ne_null _) rfl ?_
  exact .nil

theorem BatchJob.nestsWithin {n : Nat} : codec.NestsWithin (n + 2) := by
  refine .record ?_
  simp only [record, List.forall_mem_cons]
  exact ⟨.text, .text, .timestamp, .timestamp, .int32, .bool, .bool, ReplicationProgress.nestsWithin.option,
    WalkProgress.nestsWithin.option, WalkProgress.nestsWithin.option, nofun⟩

structure BatchJobMetrics.Storable (m : BatchJobMetrics) : Prop where
  collected : m.collected.Storable
  jobs : ∀ p ∈ m.jobs.entries, p.2.Storable

theorem BatchJobMetrics.Storable.keeps {m : BatchJobMetrics} (h : m.Storable) : codec.Keeps m := by
  have hjobs : BatchJob.codec.keyMap.Keeps m.jobs := .keyMap fun p hp => (h.jobs p hp).keeps
  refine Record.keeps (by decide) ?_
  refine .plain (.timestamp h.collected) ?_
  refine .plain (.orDefault hjobs nofun) ?_
  exact .nil

theorem BatchJobMetrics.nestsWithin {n : Nat} : codec.NestsWithin (n + 4) := by
  refine .record ?_
  simp only [record, List.forall_mem_cons]
  exact ⟨.timestamp, BatchJob.nestsWithin.keyMap.orDefault, nofun⟩

structure SiteResyncMetrics.Storable (m : SiteResyncMetrics) : Prop where
  collected : m.collected.Storable
  started : m.started.Storable
  updated : m.updated.Storable

theorem SiteResyncMetrics.Storable.keeps {m : SiteResyncMetrics} (h : m.Storable) : codec.Keeps m := by
  have hfailed : Codec.text.list.Keeps m.failedBuckets := .list fun bucket _ => .text bucket
  refine Record.keeps (by decide) ?_
  refine .plain (.timestamp h.collected) ?_
  refine .optionalText rfl ?_
  refine .plain (.timestamp h.started) ?_
  refine .plain (.timestamp h.updated) ?_
  refine .plain (.int64 _) ?_
  refine .plain (.text _) ?_
  refine .plain (.text _) ?_
  refine .plain (.int64 _) ?_
  refine .plain (.int64 _) ?_
  refine .plain (.int64 _) ?_
  refine .plain (.int64 _) ?_
  refine .plain (.orDefault hfailed nofun) ?_
  refine .optionalText rfl ?_
  refine .optionalText rfl ?_
  exact .nil

theorem SiteResyncMetrics.nestsWithin {n : Nat} : codec.NestsWithin (n + 2) := by
  refine .record ?_
  simp only [record, List.forall_mem_cons]
  exact ⟨.timestamp, .text, .timestamp, .timestamp, .int64, .text, .text, .int64, .int64, .int64, .int64,
    Codec.NestsWithin.text.list.orDefault, .text, .text, nofun⟩

/-! ### Networks, memory and processors -/

theorem InterfaceCounters.keeps (c : InterfaceCounters) : codec.Keeps c := by
  refine Record.keeps (by decide) ?_
  refine .plain (.text _) ?_
  iterate 16 refine .plain (.uint64 _) ?_
  exact .nil

theorem InterfaceCounters.nestsWithin {n : Nat} : codec.NestsWithin (n + 1) := by
  refine .record ?_
  simp only [record, List.forall_mem_cons]
  refine ⟨.text, ?_⟩
  iterate 16 refine ⟨.uint64, ?_⟩
  exact nofun

structure NetworkMetrics.Storable (m : NetworkMetrics) : Prop where
  collected : m.collected.Storable

theorem NetworkMetrics.Storable.keeps {m : NetworkMetrics} (h : m.Storable) : codec.Keeps m := by
  refine Record.keeps (by decide) ?_
  refine .plain (.timestamp h.collected) ?_
  refine .plain (.text _) ?_
  refine .plain m.counters.keeps ?_
  exact .nil

theorem NetworkMetrics.nestsWithin {n : Nat} : codec.NestsWithin (n + 2) := by
  refine .record ?_
  simp only [record, List.forall_mem_cons]
  exact ⟨.timestamp, .text, InterfaceCounters.nestsWithin, nofun⟩

theorem NodeStatus.restores (s : NodeStatus) : Restores s record.fields {} s := by
  refine .plain (.text _) ?_
  refine .optionalText rfl ?_
  exact .nil

theorem NodeStatus.keeps (s : NodeStatus) : codec.Keeps s := Record.keeps (by decide) s.restores

theorem NodeStatus.forall_nestsWithin {n : Nat} : ∀ f ∈ record.fields, f.codec.NestsWithin n := by
  simp only [record, List.forall_mem_cons]
  exact ⟨.text, .text, nofun⟩

theorem NodeStatus.nestsWithin {n : Nat} : codec.NestsWithin (n + 1) := .record forall_nestsWithin

theorem MemoryUse.keeps (m : MemoryUse) : codec.Keeps m := by
  refine Record.keeps (by decide) ?_
  refine .append (.within (fun _ _ => rfl) (fun _ _ _ => rfl) (fun _ => rfl) m.node.restores) ?_
  iterate 10 refine .counter rfl ?_
  exact .nil

theorem MemoryUse.nestsWithin {n : Nat} : codec.NestsWithin (n + 1) := by
  refine .record (List.forall_mem_append.2 ⟨List.forall_mem_map.2 NodeStatus.forall_nestsWithin, ?_⟩)
  simp only [List.forall_mem_cons]
  iterate 10 refine ⟨.uint64, ?_⟩
  exact nofun

structure MemoryMetrics.Storable (m : MemoryMetrics) : Prop where
  collected : m.collected.Storable

theorem MemoryMetrics.Storable.keeps {m : MemoryMetrics} (h : m.Storable) : codec.Keeps m := by
  refine Record.keeps (by decide) ?_
  refine .plain (.timestamp h.collected) ?_
  refine .plain m.memory.keeps ?_
  exact .nil

theorem MemoryMetrics.nestsWithin {n : Nat} : codec.NestsWithin (n + 2) := by
  refine .record ?_
  simp only [record, List.forall_mem_cons]
  exact ⟨.timestamp, MemoryUse.nestsWithin, nofun⟩

structure CpuTimes.Storable (t : CpuTimes) : Prop where
  user : t.user.Storable
  system : t.system.Storable
  idle : t.idle.Storable
  nice : t.nice.Storable
  iowait : t.iowait.Storable
  irq : t.irq.Storable
  softirq : t.softirq.Storable
  steal : t.steal.Storable
  guest : t.guest.Storable
  guestNice : t.guestNice.Storable

theorem CpuTimes.Storable.keeps {t : CpuTimes} (h : t.Storable) : codec.Keeps t := by
  refine Record.keeps (by decide) ?_
  refine .plain (.text _) ?_
  refine .plain (.double h.user) ?_
  refine .plain (.double h.system) ?_
  refine .plain (.double h.idle) ?_
  refine .plain (.double h.nice) ?_
  refine .plain (.double h.iowait) ?_
  refine .plain (.double h.irq) ?_
  refine .plain (.double h.softirq) ?_
  refine .plain (.double h.steal) ?_
  refine .plain (.double h.guest) ?_
  refine .plain (.double h.guestNice) ?_
  exact .nil

theorem CpuTimes.nestsWithin {n : Nat} : codec.NestsWithin (n + 1) := by
  refine .record ?_
  simp only [record, List.forall_mem_cons]
  refine ⟨.text, ?_⟩
  iterate 10 refine ⟨.double, ?_⟩
  exact nofun

structure LoadAverages.Storable (l : LoadAverages) : Prop where
  load1 : l.load1.Storable
  load5 : l.load5.Storable
  load15 : l.load15.Storable

theorem LoadAverages.Storable.keeps {l : LoadAverages} (h : l.Storable) : codec.Keeps l := by
  refine Record.keeps (by decide) ?_
  refine .plain (.double h.load1) ?_
  refine .plain (.double h.load5) ?_
  refine .plain (.double h.load15) ?_
  exact .nil

theorem LoadAverages.nestsWithin {n : Nat} : codec.NestsWithin (n + 1) := by
  refine .record ?_
  simp only [record, List.forall_mem_cons]
  exact ⟨.double, .double, .double, nofun⟩

structure CpuMetrics.Storable (m : CpuMetrics) : Prop where
  collected : m.collected.Storable
  times : ∀ t ∈ m.times, t.Storable
  load : ∀ l ∈ m.load, l.Storable

theorem CpuMetrics.Storable.keeps {m : CpuMetrics} (h : m.Storable) : codec.Keeps m := by
  refine Record.keeps (by decide) ?_
  refine .plain (.timestamp h.collected) ?_
  refine .plain (.option (fun t ht => (h.times t ht).keeps) (Record.write_ne_null _)) ?_
  refine .plain (.option (fun l hl => (h.load l hl).keeps) (Record.write_ne_null _)) ?_
  refine .plain (.int64 _) ?_
  exact .nil

theorem CpuMetrics.nestsWithin {n : Nat} : codec.NestsWithin (n + 2) := by
  refine .record ?_
  simp only [record, List.forall_mem_cons]
  exact ⟨.timestamp, CpuTimes.nestsWithin.option, LoadAverages.nestsWithin.option, .int64, nofun⟩

/-! ### The runtime -/

structure Histogram.Storable (h : Histogram) : Prop where
  boundaries : ∀ x ∈ h.boundaries, x.Storable

theorem Histogram.Storable.keeps {h : Histogram} (hs : h.Storable) : codec.Keeps h := by
  have hcounts : Codec.uint64.list.Keeps h.counts := .list fun n _ => .uint64 n
  have hboundaries : Codec.double.list.Keeps h.boundaries := .list fun x hx => .double (hs.boundaries x hx)
  refine Record.keeps (by decide) ?_
  refine .plain (.orDefault hcounts nofun) ?_
  refine .plain (.orDefault hboundaries nofun) ?_
  exact .nil

theorem Histogram.nestsWithin {n : Nat} : codec.NestsWithin (n + 2) := by
  refine .record ?_
  simp only [record, List.forall_mem_cons]
  exact ⟨Codec.NestsWithin.uint64.list.orDefault, Codec.NestsWithin.double.list.orDefault, nofun⟩

structure RuntimeMetrics.Storable (m : RuntimeMetrics) : Prop where
  doubles : ∀ p ∈ m.doubles.entries, p.2.Storable
  histograms : ∀ p ∈ m.histograms.entries, p.2.Storable

theorem RuntimeMetrics.Storable.keeps {m : RuntimeMetrics} (h : m.Storable) : codec.Keeps m := by
  refine Record.keeps (by decide) ?_
  refine .optionalMap (fun p _ => .uint64 p.2) rfl ?_
  refine .optionalMap (fun p hp => .double (h.doubles p hp)) rfl ?_
  refine .optionalMap (fun p hp => (h.histograms p hp).keeps) rfl ?_
  refine .plain (.int64 _) ?_
  exact .nil

theorem RuntimeMetrics.nestsWithin {n : Nat} : codec.NestsWithin (n + 4) := by
  refine .record ?_
  simp only [record, List.forall_mem_cons]
  exact ⟨.optionalMap .uint64, .optionalMap .double, .optionalMap Histogram.nestsWithin, .int64, nofun⟩

end ClusterMetrics
