import ClusterMetrics.ClusterView
import ClusterMetrics.Proofs.FanIn.Received
import ClusterMetrics.Proofs.Merge.Peers

/-! # When totals stay in range

For every record of metrics, when several of them can be merged one after the other, beginning with the empty one
(`Fits` in its namespace): just when every counter has a sum of its type. Counters of maps are summed by key, those
of peers by path, and those of histograms by place, as far as histograms are added up at all.

Main statement: frames can be merged into a view just when the counters of their totals fit
(`Frame.isSome_merged_iff_fits`). It does not hold of all frames (`Frame.mergeAll?_fullQueues`). -/

namespace ClusterMetrics
open Merge (slotFrom?)
open CheckedAdd (add? addPairwise? SumFits SumsFit isSome_foldlM_unsigned isSome_foldlM_signed)

/-! ### Counters by field and by key -/

section
variable {σ : Type} {absorb? : σ → σ → Option σ} {l : List σ} {s : σ}

theorem isSome_foldlM_unsignedFields {fs : List (σ → UInt64)} (h : Splits absorb? (Part.fields fs add?))
    (hs : ∀ f ∈ fs, f s = 0) : (l.foldlM absorb? s).isSome ↔ ∀ f ∈ fs, SumFits (l.map f) := by
  rw [h.isSome_foldlM, Part.forall_mem_fields]
  refine forall₂_congr fun f hf => ?_
  rw [Part.run?_field, hs f hf, isSome_foldlM_unsigned]

theorem isSome_foldlM_sumByKey? {f : σ → KeyMap UInt64} :
    ((l.map f).foldlM Merge.sumByKey? .empty).isSome ↔ ∀ key, SumFits (l.filterMap fun x => (f x).get? key) :=
  KeyMap.isSome_foldlM_combine?.trans (forall_congr' fun _ => isSome_foldlM_unsigned)

end

/-! ### Operations -/

namespace OperationTotals

def Fits (ts : List OperationTotals) : Prop := ∀ f ∈ counters, SumFits (ts.map f)

theorem Fits.perm {ts us : List OperationTotals} (h : Fits ts) (hperm : ts.Perm us) : Fits us :=
  fun f hf => (h f hf).perm (hperm.map f)

theorem isSome_foldlM {ts : List OperationTotals} : (ts.foldlM merge? {}).isSome ↔ Fits ts :=
  isSome_foldlM_unsignedFields splits (by simp [counters])

theorem isSome_foldlM_byKey? {σ : Type} {f : σ → KeyMap OperationTotals} {l : List σ} :
    ((l.map f).foldlM Merge.byKey? .empty).isSome ↔ ∀ name, Fits (l.filterMap fun x => (f x).get? name) :=
  KeyMap.isSome_foldlM_combine?.trans (forall_congr' fun _ => isSome_foldlM)

end OperationTotals

namespace LastMinute

def Fits (ms : List LastMinute) : Prop := ∀ name, OperationTotals.Fits (ms.filterMap (·.operations.get? name))

theorem isSome_foldlM {ms : List LastMinute} : (ms.foldlM merge? {}).isSome ↔ Fits ms := by
  rw [splits.isSome_foldlM]
  exact forall_eq.trans OperationTotals.isSome_foldlM_byKey?

end LastMinute

/-! ### Drives, the operating system, the scanner -/

namespace BlockDeviceCounters

def Fits (cs : List BlockDeviceCounters) : Prop := ∀ f ∈ counters, SumFits (cs.map f)

theorem isSome_foldlM {cs : List BlockDeviceCounters} : (cs.foldlM merge? {}).isSome ↔ Fits cs :=
  isSome_foldlM_unsignedFields splits (by simp [counters])

end BlockDeviceCounters

namespace DriveMetrics

structure Fits (ds : List DriveMetrics) : Prop where
  drives : SumFits (ds.map (·.drives))
  offline : SumFits (ds.map (·.offline))
  healing : SumFits (ds.map (·.healing))
  lifeTime : ∀ name, SumFits (ds.filterMap (·.lifeTime.get? name))
  lastMinute : LastMinute.Fits (ds.map (·.lastMinute))
  device : BlockDeviceCounters.Fits (ds.map (·.device))

theorem isSome_foldlM {ds : List DriveMetrics} : (ds.foldlM merge? {}).isSome ↔ Fits ds := by
  rw [splits.isSome_foldlM]
  simp only [parts, Set.forall_mem_insert, Set.mem_singleton_iff, forall_eq, Part.run?_field, isSome_foldlM_some,
    true_and]
  constructor
  · rintro ⟨hdrives, hoffline, hhealing, hlifeTime, hlastMinute, hdevice⟩
    exact {
      drives := isSome_foldlM_unsigned.1 hdrives
      offline := isSome_foldlM_unsigned.1 hoffline
      healing := isSome_foldlM_unsigned.1 hhealing
      lifeTime := isSome_foldlM_sumByKey?.1 hlifeTime
      lastMinute := LastMinute.isSome_foldlM.1 hlastMinute
      device := BlockDeviceCounters.isSome_foldlM.1 hdevice }
  · intro h
    exact ⟨isSome_foldlM_unsigned.2 h.drives, isSome_foldlM_unsigned.2 h.offline,
      isSome_foldlM_unsigned.2 h.healing, isSome_foldlM_sumByKey?.2 h.lifeTime,
      LastMinute.isSome_foldlM.2 h.lastMinute, BlockDeviceCounters.isSome_foldlM.2 h.device⟩

end DriveMetrics

namespace OsMetrics

structure Fits (os : List OsMetrics) : Prop where
  lifeTime : ∀ name, SumFits (os.filterMap (·.lifeTime.get? name))
  lastMinute : LastMinute.Fits (os.map (·.lastMinute))

theorem isSome_foldlM {os : List OsMetrics} : (os.foldlM merge? {}).isSome ↔ Fits os := by
  rw [splits.isSome_foldlM]
  simp only [parts, Set.forall_mem_insert, Set.mem_singleton_iff, forall_eq, Part.run?_field, isSome_foldlM_some,
    true_and]
  constructor
  · rintro ⟨hlifeTime, hlastMinute⟩
    exact ⟨isSome_foldlM_sumByKey?.1 hlifeTime, LastMinute.isSome_foldlM.1 hlastMinute⟩
  · intro h
    exact ⟨isSome_foldlM_sumByKey?.2 h.lifeTime, LastMinute.isSome_foldlM.2 h.lastMinute⟩

end OsMetrics

namespace ScannerMetrics

structure Fits (ss : List ScannerMetrics) : Prop where
  lifeTime : ∀ name, SumFits (ss.filterMap (·.lifeTime.get? name))
  lifeTimeLifecycle : ∀ name, SumFits (ss.filterMap (·.lifeTimeLifecycle.get? name))
  actions : ∀ name, OperationTotals.Fits (ss.filterMap (·.lastMinute.actions.get? name))
  lifecycle : ∀ name, OperationTotals.Fits (ss.filterMap (·.lastMinute.lifecycle.get? name))

theorem Fits.perm {ss ts : List ScannerMetrics} (h : Fits ss) (hperm : ss.Perm ts) : Fits ts where
  lifeTime name := (h.lifeTime name).perm (hperm.filterMap _)
  lifeTimeLifecycle name := (h.lifeTimeLifecycle name).perm (hperm.filterMap _)
  actions name := (h.actions name).perm (hperm.filterMap _)
  lifecycle name := (h.lifecycle name).perm (hperm.filterMap _)

theorem isSome_foldlM {ss : List ScannerMetrics} : (ss.foldlM merge? {}).isSome ↔ Fits ss := by
  rw [splits.isSome_foldlM]
  simp only [parts, Set.forall_mem_insert, Set.mem_singleton_iff, forall_eq, Part.run?_field, isSome_foldlM_some,
    true_and]
  constructor
  · rintro ⟨hlifeTime, hlifeTimeLifecycle, hactions, hlifecycle⟩
    exact {
      lifeTime := isSome_foldlM_sumByKey?.1 hlifeTime
      lifeTimeLifecycle := isSome_foldlM_sumByKey?.1 hlifeTimeLifecycle
      actions := OperationTotals.isSome_foldlM_byKey?.1 hactions
      lifecycle := OperationTotals.isSome_foldlM_byKey?.1 hlifecycle }
  · intro h
    exact ⟨isSome_foldlM_sumByKey?.2 h.lifeTime, isSome_foldlM_sumByKey?.2 h.lifeTimeLifecycle,
      OperationTotals.isSome_foldlM_byKey?.2 h.actions, OperationTotals.isSome_foldlM_byKey?.2 h.lifecycle⟩

end ScannerMetrics

/-! ### Network, memory, processors -/

namespace NetworkMetrics

def Fits (ns : List NetworkMetrics) : Prop := ∀ f ∈ InterfaceCounters.counters, SumFits ((ns.map counters).map f)

theorem isSome_foldlM {ns : List NetworkMetrics} : (ns.foldlM merge? {}).isSome ↔ Fits ns := by
  have hcounters : ((ns.map counters).foldlM InterfaceCounters.merge? {}).isSome ↔ Fits ns :=
    isSome_foldlM_unsignedFields InterfaceCounters.splits (by simp [InterfaceCounters.counters])
  rw [splits.isSome_foldlM]
  simp only [Set.forall_mem_insert, Set.mem_singleton_iff, forall_eq, Part.run?_field, isSome_foldlM_some,
    true_and]
  exact hcounters

end NetworkMetrics

namespace MemoryMetrics

def Fits (ms : List MemoryMetrics) : Prop := ∀ f ∈ MemoryUse.counters, SumFits ((ms.map memory).map f)

theorem isSome_foldlM {ms : List MemoryMetrics} : (ms.foldlM merge? {}).isSome ↔ Fits ms := by
  have hmemory : ((ms.map memory).foldlM MemoryUse.merge? {}).isSome ↔ Fits ms :=
    isSome_foldlM_unsignedFields MemoryUse.splits (by simp [MemoryUse.counters])
  rw [splits.isSome_foldlM]
  simp only [Set.forall_mem_insert, Set.mem_singleton_iff, forall_eq, Part.run?_field, isSome_foldlM_some,
    true_and]
  exact hmemory

end MemoryMetrics

namespace CpuMetrics

def Fits (cs : List CpuMetrics) : Prop := SumsFit (cs.map count)

theorem isSome_foldlM {cs : List CpuMetrics} : (cs.foldlM merge? {}).isSome ↔ Fits cs := by
  rw [splits.isSome_foldlM]
  simp only [Set.forall_mem_insert, Set.mem_singleton_iff, forall_eq, Part.run?_field, isSome_foldlM_some,
    true_and]
  exact isSome_foldlM_signed

end CpuMetrics

/-! ### Calls -/

namespace RpcCounters

def Fits (cs : List RpcCounters) : Prop := ∀ f ∈ counters, SumsFit (cs.map f)

theorem isSome_foldlM {cs : List RpcCounters} : (cs.foldlM merge? {}).isSome ↔ Fits cs := by
  have hcounters : (∀ f ∈ counters, ((Part.field f add?).run? {} cs).isSome) ↔ Fits cs := by
    refine forall₂_congr fun f hf => ?_
    have hzero : ∀ f ∈ counters, f {} = 0 := by simp [counters]
    rw [Part.run?_field, hzero f hf, isSome_foldlM_signed]
  rw [splits.isSome_foldlM, ← hcounters, ← Part.forall_mem_fields (P := fun p => (p.run? {} cs).isSome)]
  constructor
  · intro h p hp
    exact h p (.inr hp)
  · rintro h p (hp | hp)
    · obtain rfl | rfl | rfl := hp
      all_goals exact isSome_foldlM_some ..
    · exact h p hp

end RpcCounters

namespace RpcMetrics

def Fits (rs : List RpcMetrics) : Prop := ∀ path, RpcCounters.Fits (rs.filterMap (·.at? path))

theorem isSome_foldlM {rs : List RpcMetrics} : (rs.foldlM merge? empty).isSome ↔ Fits rs := by
  have hpath : ∀ path,
      ((rs.map fun r => r.at? path).foldlM (slotFrom? {} RpcCounters.merge?) (empty.at? path)).isSome ↔
      RpcCounters.Fits (rs.filterMap (·.at? path)) := by
    intro path
    have hempty : (empty.at? path).getD {} = {} := by
      cases path with
      | nil => rfl
      | cons step path => obtain ⟨side | side, key⟩ := step <;> rfl
    rw [Merge.isSome_foldlM_slotFrom?, hempty, RpcCounters.isSome_foldlM, List.reduceOption, List.filterMap_map]
    rfl
  rw [splits.isSome_foldlM]
  constructor
  · intro h path
    exact (hpath path).1 (h _ ⟨path, rfl⟩)
  · rintro h p ⟨path, rfl⟩
    exact (hpath path).2 (h path)

end RpcMetrics

/-! ### Processes -/

namespace Histogram
variable {a b h : Histogram} {hs : List Histogram}

def isBlank (h : Histogram) : Bool := h.boundaries.isEmpty

/-- Whether the other histogram has as many boundaries. -/
def isLike (a b : Histogram) : Bool := a.boundaries.length == b.boundaries.length

/-- The histograms that are added up: the first that has boundaries, and those behind it that are like it. -/
def added (hs : List Histogram) : List Histogram :=
  match hs.dropWhile isBlank with
  | [] => []
  | h :: rest => h :: rest.filter h.isLike

def Fits (hs : List Histogram) : Prop :=
  ∀ h rest, added hs = h :: rest → ∀ i < h.counts.length, SumFits (((h :: rest).map counts).filterMap (·[i]?))

theorem added_cons_of_isBlank (hh : h.isBlank) : added (h :: hs) = added hs := by
  rw [added, added, List.dropWhile_cons_of_pos hh]

theorem added_cons_of_not_isBlank (hh : ¬ h.isBlank) : added (h :: hs) = h :: hs.filter h.isLike := by
  rw [added, List.dropWhile_cons_of_neg hh]

theorem merge?_of_isBlank (ha : a.isBlank) : a.merge? b = some b := if_pos ha

theorem merge?_of_isLike (ha : ¬ a.isBlank) (h : a.isLike b) :
    a.merge? b = (addPairwise? a.counts b.counts).map fun cs => { a with counts := cs } := by
  have hboundaries : ¬ a.boundaries.isEmpty := ha
  have hlength : a.boundaries.length = b.boundaries.length := eq_of_beq h
  rw [merge?, if_neg hboundaries, if_pos hlength]
  cases addPairwise? a.counts b.counts <;> rfl

theorem merge?_of_not_isLike (ha : ¬ a.isBlank) (h : ¬ a.isLike b) : a.merge? b = some a := by
  have hboundaries : ¬ a.boundaries.isEmpty := ha
  have hlength : a.boundaries.length ≠ b.boundaries.length := fun he => h (beq_of_eq he)
  rw [merge?, if_neg hboundaries, if_neg hlength]

/-- With boundaries, a histogram takes in those that are like it, place by place. -/
theorem isSome_foldlM_of_not_isBlank (ha : ¬ a.isBlank) :
    (hs.foldlM merge? a).isSome ↔ (((hs.filter a.isLike).map counts).foldlM addPairwise? a.counts).isSome := by
  induction hs generalizing a with
  | nil => exact iff_of_true rfl rfl
  | cons h hs ih =>
    rw [List.foldlM_cons]
    by_cases hlike : a.isLike h
    · rw [merge?_of_isLike ha hlike, List.filter_cons_of_pos hlike, List.map_cons, List.foldlM_cons]
      cases addPairwise? a.counts h.counts with
      | none => exact Iff.rfl
      | some cs => exact ih (a := { a with counts := cs }) ha
    · rw [merge?_of_not_isLike ha hlike, List.filter_cons_of_neg hlike]
      exact ih ha

theorem isSome_foldlM_of_isBlank (ha : a.isBlank) : (hs.foldlM merge? a).isSome ↔ Fits hs := by
  induction hs generalizing a with
  | nil => exact iff_of_true rfl nofun
  | cons h hs ih =>
    rw [List.foldlM_cons, merge?_of_isBlank ha]
    by_cases hblank : h.isBlank
    · rw [Fits, added_cons_of_isBlank hblank]
      exact ih hblank
    · rw [Fits, added_cons_of_not_isBlank hblank]
      refine (isSome_foldlM_of_not_isBlank hblank).trans (CheckedAdd.isSome_foldlM_addPairwise?.trans ?_)
      constructor
      · intro hplaces g rest heq
        cases heq
        exact hplaces
      · intro hfits
        exact hfits _ _ rfl

theorem isSome_foldlM : (hs.foldlM merge? {}).isSome ↔ Fits hs := isSome_foldlM_of_isBlank rfl

end Histogram

namespace RuntimeMetrics

structure Fits (rs : List RuntimeMetrics) : Prop where
  integers : ∀ name, SumFits (rs.filterMap (·.integers.get? name))
  histograms : ∀ name, Histogram.Fits (rs.filterMap (·.histograms.get? name))
  count : SumsFit (rs.map (·.count))

/-- Sums of doubles always exist. -/
theorem isSome_foldlM_doubles {rs : List RuntimeMetrics} :
    ((rs.map doubles).foldlM Merge.sumByKey? .empty).isSome :=
  KeyMap.isSome_foldlM_combine?.2 fun _ => isSome_foldlM_some ..

theorem isSome_foldlM_histograms {rs : List RuntimeMetrics} :
    ((rs.map histograms).foldlM Merge.byKey? .empty).isSome ↔
      ∀ name, Histogram.Fits (rs.filterMap (·.histograms.get? name)) :=
  KeyMap.isSome_foldlM_combine?.trans (forall_congr' fun _ => Histogram.isSome_foldlM)

theorem isSome_foldlM {rs : List RuntimeMetrics} : (rs.foldlM merge? {}).isSome ↔ Fits rs := by
  rw [splits.isSome_foldlM]
  simp only [parts, Set.forall_mem_insert, Set.mem_singleton_iff, forall_eq, Part.run?_field]
  constructor
  · rintro ⟨hintegers, -, hhistograms, hcount⟩
    exact ⟨isSome_foldlM_sumByKey?.1 hintegers, isSome_foldlM_histograms.1 hhistograms, isSome_foldlM_signed.1 hcount⟩
  · intro h
    exact ⟨isSome_foldlM_sumByKey?.2 h.integers, isSome_foldlM_doubles, isSome_foldlM_histograms.2 h.histograms,
      isSome_foldlM_signed.2 h.count⟩

end RuntimeMetrics

/-! ### Bundles -/

namespace MetricBundle

/-- Reports on jobs and on resyncs are not added up, so they are not in the way. -/
structure Fits (ms : List MetricBundle) : Prop where
  scanner : ScannerMetrics.Fits (ms.filterMap (·.scanner))
  disk : DriveMetrics.Fits (ms.filterMap (·.disk))
  os : OsMetrics.Fits (ms.filterMap (·.os))
  network : NetworkMetrics.Fits (ms.filterMap (·.network))
  memory : MemoryMetrics.Fits (ms.filterMap (·.memory))
  cpu : CpuMetrics.Fits (ms.filterMap (·.cpu))
  rpc : RpcMetrics.Fits (ms.filterMap (·.rpc))
  runtime : RuntimeMetrics.Fits (ms.filterMap (·.runtime))

theorem isSome_foldlM {ms : List MetricBundle} : (ms.foldlM merge? {}).isSome ↔ Fits ms := by
  have hbatchJobs : ((ms.map batchJobs).foldlM Merge.slot? none).isSome :=
    Merge.isSome_foldlM_slot?.2 (isSome_foldlM_some ..)
  have hsiteResync : ((ms.map siteResync).foldlM Merge.slot? none).isSome :=
    Merge.isSome_foldlM_slot?.2 (isSome_foldlM_some ..)
  rw [splits.isSome_foldlM]
  simp only [parts, Set.forall_mem_insert, Set.mem_singleton_iff, forall_eq, Part.run?_field]
  constructor
  · rintro ⟨hscanner, hdisk, hos, -, -, hnetwork, hmemory, hcpu, hrpc, hruntime⟩
    exact {
      scanner := ScannerMetrics.isSome_foldlM.1 (Merge.isSome_foldlM_slot?.1 hscanner)
      disk := DriveMetrics.isSome_foldlM.1 (Merge.isSome_foldlM_slot?.1 hdisk)
      os := OsMetrics.isSome_foldlM.1 (Merge.isSome_foldlM_slot?.1 hos)
      network := NetworkMetrics.isSome_foldlM.1 (Merge.isSome_foldlM_slot?.1 hnetwork)
      memory := MemoryMetrics.isSome_foldlM.1 (Merge.isSome_foldlM_slot?.1 hmemory)
      cpu := CpuMetrics.isSome_foldlM.1 (Merge.isSome_foldlM_slot?.1 hcpu)
      rpc := RpcMetrics.isSome_foldlM.1 (Merge.isSome_foldlM_slot?.1 hrpc)
      runtime := RuntimeMetrics.isSome_foldlM.1 (Merge.isSome_foldlM_slot?.1 hruntime) }
  · intro h
    exact ⟨Merge.isSome_foldlM_slot?.2 (ScannerMetrics.isSome_foldlM.2 h.scanner),
      Merge.isSome_foldlM_slot?.2 (DriveMetrics.isSome_foldlM.2 h.disk),
      Merge.isSome_foldlM_slot?.2 (OsMetrics.isSome_foldlM.2 h.os), hbatchJobs, hsiteResync,
      Merge.isSome_foldlM_slot?.2 (NetworkMetrics.isSome_foldlM.2 h.network),
      Merge.isSome_foldlM_slot?.2 (MemoryMetrics.isSome_foldlM.2 h.memory),
      Merge.isSome_foldlM_slot?.2 (CpuMetrics.isSome_foldlM.2 h.cpu),
      Merge.isSome_foldlM_slot?.2 (RpcMetrics.isSome_foldlM.2 h.rpc),
      Merge.isSome_foldlM_slot?.2 (RuntimeMetrics.isSome_foldlM.2 h.runtime)⟩

end MetricBundle

/-! ### Frames -/

namespace Frame

theorem inTurn (a b : Frame) :
    InTurn a b {.field total MetricBundle.merge?}
      (fun c => c.errors = a.errors ++ b.errors ∧ c.byHost = a.byHost.overwrite b.byHost ∧
        c.byDisk = a.byDisk.overwrite b.byDisk ∧ c.isFinal = a.isFinal)
      (merge? a b) := by
  rw [merge?, ← insert_empty_eq]
  exact .step fun _ => .done (by simp)

theorem splits : Splits merge? {.field total MetricBundle.merge?} := .of_inTurn inTurn

theorem isSome_mergeAll? {fs : List Frame} : (mergeAll? fs).isSome ↔ MetricBundle.Fits (fs.map total) := by
  rw [mergeAll?, splits.isSome_foldlM]
  exact forall_eq.trans MetricBundle.isSome_foldlM

end Frame

namespace ClusterView

theorem splits : Splits absorb? {⟨fun v => v.frame.total, Frame.total, MetricBundle.merge?⟩} where
  tracks := by
    rintro p rfl v f w h
    obtain ⟨g, hg, rfl⟩ := Option.map_eq_some_iff.1 h
    exact Frame.splits.tracks _ rfl hg
  isSome := by
    intro v f h
    rw [absorb?, Option.isSome_map]
    refine Frame.splits.isSome ?_
    rintro p rfl
    exact h _ rfl

theorem isSome_foldlM_absorb? {fs : List Frame} :
    (fs.foldlM absorb? {}).isSome ↔ MetricBundle.Fits (fs.map Frame.total) := by
  rw [splits.isSome_foldlM]
  exact forall_eq.trans MetricBundle.isSome_foldlM

end ClusterView

theorem FanIn.isSome_view? (s : FanIn) :
    s.view?.isSome ↔ MetricBundle.Fits (s.latest.entries.map fun entry => entry.2.total) := by
  rw [view?_eq, Option.isSome_map, Frame.isSome_mergeAll?, List.map_map]
  rfl

namespace Frame

/-- Frames can be merged just when their counters fit: one after the other, as a view of the cluster, and as the
latest frames of several sources. -/
theorem isSome_merged_iff_fits (fs : List Frame) (s : FanIn) :
    ((mergeAll? fs).isSome ↔ MetricBundle.Fits (fs.map total)) ∧
    ((fs.foldlM ClusterView.absorb? {}).isSome ↔ MetricBundle.Fits (fs.map total)) ∧
    (s.view?.isSome ↔ MetricBundle.Fits (s.latest.entries.map fun entry => entry.2.total)) :=
  ⟨isSome_mergeAll?, ClusterView.isSome_foldlM_absorb?, s.isSome_view?⟩

/-- Texts of two frames, each with the longest queue that can be counted. -/
def fullQueues : List Bytes :=
  let text := utf8Bytes "\x7b\"aggregated\":\x7b\"rpc\":\x7b\"outQueue\":9223372036854775807\x7d\x7d\x7d"
  [text, text]

/-- The texts can be read, but the queues cannot be added up. -/
theorem mergeAll?_fullQueues : ∃ fs, fullQueues.mapM codec.decode? = some fs ∧ mergeAll? fs = none ∧
    fs.foldlM ClusterView.absorb? {} = none := by
  have hread : (fullQueues.mapM codec.decode?).isSome := by decide +kernel
  have hmerge : ((fullQueues.mapM codec.decode?).bind mergeAll?).isNone := by decide +kernel
  obtain ⟨fs, hfs⟩ := Option.isSome_iff_exists.1 hread
  rw [hfs, Option.bind_some] at hmerge
  have hnone : mergeAll? fs = none := Option.isNone_iff_eq_none.1 hmerge
  have hfits : ¬ MetricBundle.Fits (fs.map total) := by
    rw [← isSome_mergeAll?, hnone]
    exact Bool.false_ne_true
  refine ⟨fs, hfs, hnone, Option.not_isSome_iff_eq_none.1 fun h => hfits ?_⟩
  exact ClusterView.isSome_foldlM_absorb?.1 h

end Frame

end ClusterMetrics
