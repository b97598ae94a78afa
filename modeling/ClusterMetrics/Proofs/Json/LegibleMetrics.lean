import ClusterMetrics.Proofs.Json.KeptMetrics
import ClusterMetrics.Proofs.Json.Legible

/-! # Metrics that are read again at all

Of each type of metrics but those of calls: the timestamps and doubles it holds, that its text is read exactly if these
are legible, and that they were read if the metrics were. -/

namespace ClusterMetrics
open HasLeaves (leaves)

section
variable {P : Leaf → Prop}

/-! ### Drives and the operating system -/

namespace DriveMetrics

instance : HasLeaves DriveMetrics := ⟨fun d => leaves d.collected⟩

theorem every_iff {d : DriveMetrics} : Every P d ↔ Every P d.collected := Iff.rfl

theorem reopens (d : DriveMetrics) : codec.Reopens d := by
  refine Record.reopens (by decide) every_iff ?_
  refine .last ?_
  refine .plain (.timestamp _) ?_
  refine .keeps (.uint64 _) rfl ?_
  refine .keeps (.uint64 _) rfl ?_
  refine .keeps (.uint64 _) rfl ?_
  refine .keepsMap (fun p _ => .uint64 p.2) ?_
  refine .keeps d.lastMinute.keeps rfl ?_
  refine .keeps d.device.keeps rfl ?_
  exact .nil

theorem yields_isDecoded : codec.Yields (Every Leaf.IsDecoded) := by
  refine Record.yields every_isDecoded_zero ?_
  simp only [record, List.forall_mem_cons]
  refine ⟨Field.preserves .isDecoded_timestamp fun _ _ hv _ => hv, ?_⟩
  iterate 6 refine ⟨Field.preserves_of_set fun _ _ h => h, ?_⟩
  exact List.forall_mem_nil _

end DriveMetrics

namespace OsMetrics

instance : HasLeaves OsMetrics := ⟨fun o => leaves o.collected⟩

theorem every_iff {o : OsMetrics} : Every P o ↔ Every P o.collected := Iff.rfl

theorem reopens (o : OsMetrics) : codec.Reopens o := by
  refine Record.reopens (by decide) every_iff ?_
  refine .last ?_
  refine .plain (.timestamp _) ?_
  refine .keepsMap (fun p _ => .uint64 p.2) ?_
  refine .keeps o.lastMinute.keeps rfl ?_
  exact .nil

theorem yields_isDecoded : codec.Yields (Every Leaf.IsDecoded) := by
  refine Record.yields every_isDecoded_zero ?_
  simp only [record, List.forall_mem_cons]
  exact ⟨Field.preserves .isDecoded_timestamp fun _ _ hv _ => hv, Field.preserves_of_set fun _ _ h => h,
    Field.preserves_of_set fun _ _ h => h, List.forall_mem_nil _⟩

end OsMetrics

/-! ### The scanner -/

namespace BucketScan

instance : HasLeaves BucketScan := ⟨fun s => leaves s.updated ++ leaves s.started ++ leaves s.completed⟩

theorem every_iff {s : BucketScan} : Every P s ↔ Every P s.updated ∧ Every P s.started ∧ Every P s.completed := by
  simp only [Every, leaves, List.forall_mem_append, and_assoc]

theorem reopens (s : BucketScan) : codec.Reopens s := by
  refine Record.reopens (by decide) every_iff ?_
  refine .keeps (.int32 _) rfl ?_
  refine .keeps (.int32 _) rfl ?_
  refine .keeps (.uint64 _) rfl ?_
  refine .keeps (.bool _) rfl ?_
  refine .plain (.timestamp _) ?_
  refine .plain (.timestamp _) ?_
  refine .keeps (.text _) rfl ?_
  refine .last ?_
  refine .optionalList (fun t _ => .timestamp t) ?_
  exact .nil

theorem yields_isDecoded : codec.Yields (Every Leaf.IsDecoded) := by
  have hcompleted := (Codec.Yields.every_list .isDecoded_timestamp).orDefault every_nil
  refine Record.yields (every_iff.2 ⟨every_isDecoded_zero, every_isDecoded_zero, every_nil⟩) ?_
  simp only [record, List.forall_mem_cons]
  iterate 4 refine ⟨Field.preserves_of_set fun _ _ h => h, ?_⟩
  exact ⟨Field.preserves .isDecoded_timestamp fun _ _ hv hs => every_iff.2 ⟨hv, (every_iff.1 hs).2⟩,
    Field.preserves .isDecoded_timestamp fun _ _ hv hs => every_iff.2 ⟨(every_iff.1 hs).1, hv, (every_iff.1 hs).2.2⟩,
    Field.preserves_of_set fun _ _ h => h,
    Field.preserves hcompleted fun _ _ hv hs => every_iff.2 ⟨(every_iff.1 hs).1, (every_iff.1 hs).2.1, hv⟩,
    List.forall_mem_nil _⟩

end BucketScan

namespace ScannerMetrics

instance : HasLeaves ScannerMetrics :=
  ⟨fun s => leaves s.collected ++ leaves s.started ++ leaves s.completed ++ leaves s.perBucket⟩

theorem every_iff {s : ScannerMetrics} : Every P s ↔
    Every P s.collected ∧ Every P s.started ∧ Every P s.completed ∧ Every P s.perBucket := by
  simp only [Every, leaves, List.forall_mem_append, and_assoc]

theorem reopens (s : ScannerMetrics) : codec.Reopens s := by
  have hcompleted : Timestamp.codec.list.Reopens s.completed := .list fun t _ => .timestamp t
  have hbuckets : ∀ p ∈ s.perBucket.entries, BucketScan.codec.list.Reopens p.2 := fun p _ =>
    .list fun scan _ => scan.reopens
  refine Record.reopens (by decide) every_iff ?_
  refine .plain (.timestamp _) ?_
  refine .keeps (.uint64 _) rfl ?_
  refine .plain (.timestamp _) ?_
  refine .plain (.orDefault hcompleted nofun) ?_
  refine .keeps (.uint64 _) rfl ?_
  refine .last ?_
  refine .optionalMap hbuckets ?_
  refine .keepsMap (fun p _ => .uint64 p.2) ?_
  refine .keepsMap (fun p _ => .uint64 p.2) ?_
  refine .keeps s.lastMinute.keeps rfl ?_
  refine .keepsList (fun path _ => .text path) ?_
  exact .nil

theorem yields_isDecoded : codec.Yields (Every Leaf.IsDecoded) := by
  have hcompleted := (Codec.Yields.every_list .isDecoded_timestamp).orDefault every_nil
  have hbuckets := BucketScan.yields_isDecoded.every_list.every_keyMap.orDefault every_empty
  refine Record.yields (every_iff.2
    ⟨every_isDecoded_zero, every_isDecoded_zero, every_nil, every_empty⟩) ?_
  simp only [record, List.forall_mem_cons]
  refine ⟨Field.preserves .isDecoded_timestamp fun v s hv hs => ?_, Field.preserves_of_set fun _ _ h => h,
    Field.preserves .isDecoded_timestamp fun v s hv hs => ?_, Field.preserves hcompleted fun v s hv hs => ?_,
    Field.preserves_of_set fun _ _ h => h, Field.preserves hbuckets fun v s hv hs => ?_, ?_⟩
  iterate 4
    obtain ⟨hcollected, hstarted, hcompleted, hbuckets⟩ := every_iff.1 hs
    exact every_iff.2 ⟨by assumption, by assumption, by assumption, by assumption⟩
  iterate 4 refine ⟨Field.preserves_of_set fun _ _ h => h, ?_⟩
  exact List.forall_mem_nil _

end ScannerMetrics

/-! ### Jobs and resync -/

namespace BatchJob

instance : HasLeaves BatchJob := ⟨fun j => leaves j.started ++ leaves j.updated⟩

theorem every_iff {j : BatchJob} : Every P j ↔ Every P j.started ∧ Every P j.updated := List.forall_mem_append

theorem reopens (j : BatchJob) : codec.Reopens j := by
  refine Record.reopens (by decide) every_iff ?_
  refine .keeps (.text _) rfl ?_
  refine .keeps (.text _) rfl ?_
  refine .plain (.timestamp _) ?_
  refine .last ?_
  refine .plain (.timestamp _) ?_
  refine .keeps (.int32 _) rfl ?_
  refine .keeps (.bool _) rfl ?_
  refine .keeps (.bool _) rfl ?_
  refine .keeps (.option (fun p _ => p.keeps) (Record.write_ne_null _)) rfl ?_
  refine .keeps (.option (fun p _ => p.keeps) (Record.write_ne_null _)) rfl ?_
  refine .keeps (.option (fun p _ => p.keeps) (Record.write_ne_null _)) rfl ?_
  exact .nil

theorem yields_isDecoded : codec.Yields (Every Leaf.IsDecoded) := by
  refine Record.yields (every_iff.2 ⟨every_isDecoded_zero, every_isDecoded_zero⟩) ?_
  simp only [record, List.forall_mem_cons]
  refine ⟨Field.preserves_of_set fun _ _ h => h, Field.preserves_of_set fun _ _ h => h,
    Field.preserves .isDecoded_timestamp fun _ _ hv hs => every_iff.2 ⟨hv, (every_iff.1 hs).2⟩,
    Field.preserves .isDecoded_timestamp fun _ _ hv hs => every_iff.2 ⟨(every_iff.1 hs).1, hv⟩, ?_⟩
  iterate 6 refine ⟨Field.preserves_of_set fun _ _ h => h, ?_⟩
  exact List.forall_mem_nil _

end BatchJob

namespace BatchJobMetrics

instance : HasLeaves BatchJobMetrics := ⟨fun m => leaves m.collected ++ leaves m.jobs⟩

theorem every_iff {m : BatchJobMetrics} : Every P m ↔ Every P m.collected ∧ Every P m.jobs := List.forall_mem_append

theorem reopens (m : BatchJobMetrics) : codec.Reopens m := by
  have hjobs : BatchJob.codec.keyMap.Reopens m.jobs := .keyMap fun p _ => p.2.reopens
  refine Record.reopens (by decide) every_iff ?_
  refine .plain (.timestamp _) ?_
  refine .last ?_
  refine .plain (.orDefault hjobs nofun) ?_
  exact .nil

theorem yields_isDecoded : codec.Yields (Every Leaf.IsDecoded) := by
  have hjobs := BatchJob.yields_isDecoded.every_keyMap.orDefault every_empty
  refine Record.yields (every_iff.2 ⟨every_isDecoded_zero, every_empty⟩) ?_
  simp only [record, List.forall_mem_cons]
  exact ⟨Field.preserves .isDecoded_timestamp fun _ _ hv hs => every_iff.2 ⟨hv, (every_iff.1 hs).2⟩,
    Field.preserves hjobs fun _ _ hv hs => every_iff.2 ⟨(every_iff.1 hs).1, hv⟩, List.forall_mem_nil _⟩

end BatchJobMetrics

namespace SiteResyncMetrics

instance : HasLeaves SiteResyncMetrics := ⟨fun m => leaves m.collected ++ leaves m.started ++ leaves m.updated⟩

theorem every_iff {m : SiteResyncMetrics} :
    Every P m ↔ Every P m.collected ∧ Every P m.started ∧ Every P m.updated := by
  simp only [Every, leaves, List.forall_mem_append, and_assoc]

theorem reopens (m : SiteResyncMetrics) : codec.Reopens m := by
  have hfailed : Codec.text.list.Keeps m.failedBuckets := .list fun bucket _ => .text bucket
  have hfailed : Codec.text.list.orDefault.Keeps m.failedBuckets := .orDefault hfailed nofun
  refine Record.reopens (by decide) every_iff ?_
  refine .plain (.timestamp _) ?_
  refine .keeps (.text _) rfl ?_
  refine .plain (.timestamp _) ?_
  refine .last ?_
  refine .plain (.timestamp _) ?_
  refine .keeps (.int64 _) rfl ?_
  refine .keeps (.text _) rfl ?_
  refine .keeps (.text _) rfl ?_
  iterate 4 refine .keeps (.int64 _) rfl ?_
  refine .keeps hfailed rfl ?_
  refine .keeps (.text _) rfl ?_
  refine .keeps (.text _) rfl ?_
  exact .nil

theorem yields_isDecoded : codec.Yields (Every Leaf.IsDecoded) := by
  refine Record.yields (every_iff.2 ⟨every_isDecoded_zero, every_isDecoded_zero, every_isDecoded_zero⟩) ?_
  simp only [record, List.forall_mem_cons]
  refine ⟨Field.preserves .isDecoded_timestamp fun _ _ hv hs => every_iff.2 ⟨hv, (every_iff.1 hs).2⟩,
    Field.preserves_of_set fun _ _ h => h,
    Field.preserves .isDecoded_timestamp fun _ _ hv hs => every_iff.2 ⟨(every_iff.1 hs).1, hv, (every_iff.1 hs).2.2⟩,
    Field.preserves .isDecoded_timestamp fun _ _ hv hs => every_iff.2 ⟨(every_iff.1 hs).1, (every_iff.1 hs).2.1, hv⟩, ?_⟩
  iterate 10 refine ⟨Field.preserves_of_set fun _ _ h => h, ?_⟩
  exact List.forall_mem_nil _

end SiteResyncMetrics

/-! ### Networks, memory and processors -/

namespace NetworkMetrics

instance : HasLeaves NetworkMetrics := ⟨fun m => leaves m.collected⟩

theorem every_iff {m : NetworkMetrics} : Every P m ↔ Every P m.collected := Iff.rfl

theorem reopens (m : NetworkMetrics) : codec.Reopens m := by
  refine Record.reopens (by decide) every_iff ?_
  refine .last ?_
  refine .plain (.timestamp _) ?_
  refine .keeps (.text _) rfl ?_
  refine .keeps m.counters.keeps rfl ?_
  exact .nil

theorem yields_isDecoded : codec.Yields (Every Leaf.IsDecoded) := by
  refine Record.yields every_isDecoded_zero ?_
  simp only [record, List.forall_mem_cons]
  exact ⟨Field.preserves .isDecoded_timestamp fun _ _ hv _ => hv, Field.preserves_of_set fun _ _ h => h,
    Field.preserves_of_set fun _ _ h => h, List.forall_mem_nil _⟩

end NetworkMetrics

namespace MemoryMetrics

instance : HasLeaves MemoryMetrics := ⟨fun m => leaves m.collected⟩

theorem every_iff {m : MemoryMetrics} : Every P m ↔ Every P m.collected := Iff.rfl

theorem reopens (m : MemoryMetrics) : codec.Reopens m := by
  refine Record.reopens (by decide) every_iff ?_
  refine .last ?_
  refine .plain (.timestamp _) ?_
  refine .keeps m.memory.keeps rfl ?_
  exact .nil

theorem yields_isDecoded : codec.Yields (Every Leaf.IsDecoded) := by
  refine Record.yields every_isDecoded_zero ?_
  simp only [record, List.forall_mem_cons]
  exact ⟨Field.preserves .isDecoded_timestamp fun _ _ hv _ => hv, Field.preserves_of_set fun _ _ h => h,
    List.forall_mem_nil _⟩

end MemoryMetrics

namespace CpuTimes

/-- The seconds in each state. -/
def seconds (t : CpuTimes) : List Binary64 :=
  [t.user, t.system, t.idle, t.nice, t.iowait, t.irq, t.softirq, t.steal, t.guest, t.guestNice]

instance : HasLeaves CpuTimes := ⟨fun t => leaves t.seconds⟩

theorem every_iff {t : CpuTimes} : Every P t ↔ Every P t.user ∧ Every P t.system ∧ Every P t.idle ∧ Every P t.nice ∧
    Every P t.iowait ∧ Every P t.irq ∧ Every P t.softirq ∧ Every P t.steal ∧ Every P t.guest ∧ Every P t.guestNice := by
  have hlist : Every P t ↔ Every P t.seconds := Iff.rfl
  simp only [hlist, every_list, seconds, List.forall_mem_cons, List.not_mem_nil, IsEmpty.forall_iff, implies_true,
    and_true]

theorem reopens (t : CpuTimes) : codec.Reopens t := by
  refine Record.reopens (by decide) every_iff ?_
  refine .keeps (.text _) rfl ?_
  iterate 9 refine .plain (.double _) ?_
  refine .last ?_
  refine .plain (.double _) ?_
  exact .nil

theorem yields_isDecoded : codec.Yields (Every Leaf.IsDecoded) := by
  have hzero : Every Leaf.IsDecoded Binary64.zero := every_double.2 ⟨_, rfl⟩
  refine Record.yields (every_list.2 fun x hx => ?_) ?_
  · have hx : x ∈ List.replicate 10 Binary64.zero := hx
    exact List.eq_of_mem_replicate hx ▸ hzero
  simp only [record, List.forall_mem_cons]
  refine ⟨Field.preserves_of_set fun _ _ h => h, ?_⟩
  iterate 10
    refine ⟨Field.preserves .isDecoded_double fun v t hv ht => ?_, ?_⟩
    · have ht := every_iff.1 ht
      refine every_iff.2 ?_
      simp only [ht, hv, and_self]
  exact List.forall_mem_nil _

end CpuTimes

namespace LoadAverages

instance : HasLeaves LoadAverages := ⟨fun l => leaves [l.load1, l.load5, l.load15]⟩

theorem every_iff {l : LoadAverages} : Every P l ↔ Every P l.load1 ∧ Every P l.load5 ∧ Every P l.load15 := by
  have hlist : Every P l ↔ Every P [l.load1, l.load5, l.load15] := Iff.rfl
  simp only [hlist, every_list, List.forall_mem_cons, List.not_mem_nil, IsEmpty.forall_iff, implies_true,
    and_true]

theorem reopens (l : LoadAverages) : codec.Reopens l := by
  refine Record.reopens (by decide) every_iff ?_
  refine .plain (.double _) ?_
  refine .plain (.double _) ?_
  refine .last ?_
  refine .plain (.double _) ?_
  exact .nil

theorem yields_isDecoded : codec.Yields (Every Leaf.IsDecoded) := by
  have hzero : Every Leaf.IsDecoded Binary64.zero := every_double.2 ⟨_, rfl⟩
  refine Record.yields (every_iff.2 ⟨hzero, hzero, hzero⟩) ?_
  simp only [record, List.forall_mem_cons]
  exact ⟨Field.preserves .isDecoded_double fun _ _ hv hs => every_iff.2 ⟨hv, (every_iff.1 hs).2⟩,
    Field.preserves .isDecoded_double fun _ _ hv hs => every_iff.2 ⟨(every_iff.1 hs).1, hv, (every_iff.1 hs).2.2⟩,
    Field.preserves .isDecoded_double fun _ _ hv hs => every_iff.2 ⟨(every_iff.1 hs).1, (every_iff.1 hs).2.1, hv⟩,
    List.forall_mem_nil _⟩

end LoadAverages

namespace CpuMetrics

instance : HasLeaves CpuMetrics := ⟨fun m => leaves m.collected ++ leaves m.times ++ leaves m.load⟩

theorem every_iff {m : CpuMetrics} : Every P m ↔ Every P m.collected ∧ Every P m.times ∧ Every P m.load := by
  simp only [Every, leaves, List.forall_mem_append, and_assoc]

theorem reopens (m : CpuMetrics) : codec.Reopens m := by
  refine Record.reopens (by decide) every_iff ?_
  refine .plain (.timestamp _) ?_
  refine .plain (.option (fun t _ => t.reopens) (Record.write_ne_null _)) ?_
  refine .last ?_
  refine .plain (.option (fun l _ => l.reopens) (Record.write_ne_null _)) ?_
  refine .keeps (.int64 _) rfl ?_
  exact .nil

theorem yields_isDecoded : codec.Yields (Every Leaf.IsDecoded) := by
  have htimes := CpuTimes.yields_isDecoded.every_option
  have hload := LoadAverages.yields_isDecoded.every_option
  refine Record.yields (every_iff.2 ⟨every_isDecoded_zero, every_none, every_none⟩) ?_
  simp only [record, List.forall_mem_cons]
  exact ⟨Field.preserves .isDecoded_timestamp fun _ _ hv hs => every_iff.2 ⟨hv, (every_iff.1 hs).2⟩,
    Field.preserves htimes fun _ _ hv hs => every_iff.2 ⟨(every_iff.1 hs).1, hv, (every_iff.1 hs).2.2⟩,
    Field.preserves hload fun _ _ hv hs => every_iff.2 ⟨(every_iff.1 hs).1, (every_iff.1 hs).2.1, hv⟩,
    Field.preserves_of_set fun _ _ h => h, List.forall_mem_nil _⟩

end CpuMetrics

/-! ### The runtime -/

namespace Histogram

instance : HasLeaves Histogram := ⟨fun h => leaves h.boundaries⟩

theorem every_iff {h : Histogram} : Every P h ↔ Every P h.boundaries := Iff.rfl

theorem reopens (h : Histogram) : codec.Reopens h := by
  have hcounts : Codec.uint64.list.Keeps h.counts := .list fun n _ => .uint64 n
  have hcounts : Codec.uint64.list.orDefault.Keeps h.counts := .orDefault hcounts nofun
  have hboundaries : Codec.double.list.Reopens h.boundaries := .list fun x _ => .double x
  refine Record.reopens (by decide) every_iff ?_
  refine .keeps hcounts rfl ?_
  refine .last ?_
  refine .plain (.orDefault hboundaries nofun) ?_
  exact .nil

theorem yields_isDecoded : codec.Yields (Every Leaf.IsDecoded) := by
  have hboundaries := (Codec.Yields.every_list .isDecoded_double).orDefault every_nil
  refine Record.yields every_nil ?_
  simp only [record, List.forall_mem_cons]
  exact ⟨Field.preserves_of_set fun _ _ h => h, Field.preserves hboundaries fun _ _ hv _ => hv, List.forall_mem_nil _⟩

end Histogram

namespace RuntimeMetrics

instance : HasLeaves RuntimeMetrics := ⟨fun m => leaves m.doubles ++ leaves m.histograms⟩

theorem every_iff {m : RuntimeMetrics} : Every P m ↔ Every P m.doubles ∧ Every P m.histograms :=
  List.forall_mem_append

theorem reopens (m : RuntimeMetrics) : codec.Reopens m := by
  refine Record.reopens (by decide) every_iff ?_
  refine .keepsMap (fun p _ => .uint64 p.2) ?_
  refine .optionalMap (fun p _ => .double p.2) ?_
  refine .last ?_
  refine .optionalMap (fun p _ => p.2.reopens) ?_
  refine .keeps (.int64 _) rfl ?_
  exact .nil

theorem yields_isDecoded : codec.Yields (Every Leaf.IsDecoded) := by
  have hdoubles := (Codec.Yields.every_keyMap .isDecoded_double).orDefault every_empty
  have hhistograms := Histogram.yields_isDecoded.every_keyMap.orDefault every_empty
  refine Record.yields (every_iff.2 ⟨every_empty, every_empty⟩) ?_
  simp only [record, List.forall_mem_cons]
  exact ⟨Field.preserves_of_set fun _ _ h => h,
    Field.preserves hdoubles fun _ _ hv hs => every_iff.2 ⟨hv, (every_iff.1 hs).2⟩,
    Field.preserves hhistograms fun _ _ hv hs => every_iff.2 ⟨(every_iff.1 hs).1, hv⟩,
    Field.preserves_of_set fun _ _ h => h, List.forall_mem_nil _⟩

end RuntimeMetrics

end

end ClusterMetrics
