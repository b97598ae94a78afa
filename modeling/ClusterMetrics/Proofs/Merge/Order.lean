import ClusterMetrics.Proofs.Merge.AddingUp
import ClusterMetrics.Proofs.Merge.Peers

/-! # Totals in every order

Bundles merged in two orders have the same totals: everything that is counted, every time of collection, which
categories there are and which keys the maps have (`MetricBundle.SameTotals`). Names, statuses, pings, what is
said of single buckets and jobs, and sums of doubles are left out, since they may depend on the order.

Main statement: two orders in which no counter leaves its range leave the same totals
(`MetricBundle.sameTotals_of_perm`). -/

namespace ClusterMetrics
open CheckedAdd (add?)

/-! ### What is free of the order -/

theorem orderFree_latest : OrderFree (fun t u : Timestamp => some (t.latest u)) Eq := Timestamp.addsUp_latest.orderFree

theorem orderFree_max : OrderFree (fun m n : UInt64 => some (max m n)) Eq := by
  refine .of_comm fun a b c => UInt64.toNat_inj.1 ?_
  iterate 4 rw [UInt64.toNat_max]
  rw [Nat.max_assoc, Nat.max_comm b.toNat, Nat.max_assoc]

theorem orderFree_sumByKey? : OrderFree (Merge.sumByKey? (α := UInt64)) Eq := Merge.addsUp_sumByKey?.orderFree

theorem OperationTotals.orderFree_byKey? : OrderFree (Merge.byKey? (α := OperationTotals)) Eq :=
  (KeyMap.addsUp_combine? OperationTotals.addsUp).orderFree

theorem DriveMetrics.orderFree : OrderFree merge? Eq := DriveMetrics.addsUp.orderFree

theorem OsMetrics.orderFree : OrderFree merge? Eq := OsMetrics.addsUp.orderFree

/-! ### What is free of the order in part -/

/-- Equal apart from when the cycle started, when cycles were complete and what the scans of buckets are. -/
structure ScannerMetrics.SameTotals (a b : ScannerMetrics) : Prop where
  collected : a.collected = b.collected
  cycle : a.cycle = b.cycle
  ongoingBuckets : a.ongoingBuckets = b.ongoingBuckets
  perBucket : a.perBucket.keys = b.perBucket.keys
  lifeTime : a.lifeTime = b.lifeTime
  lifeTimeLifecycle : a.lifeTimeLifecycle = b.lifeTimeLifecycle
  lastMinute : a.lastMinute = b.lastMinute
  active : a.active = b.active

theorem ScannerMetrics.orderFree : OrderFree merge? SameTotals := by
  intro s a b l l' hperm ha hb
  obtain ⟨hcollected, hcycle, hongoing, hperBucket, hactive, hlifeTime, hlifecycle, hactions, hactionsLifecycle⟩ :=
    tracks_parts
  have hactions := hactions.same OperationTotals.orderFree_byKey? hperm ha hb
  have hactionsLifecycle := hactionsLifecycle.same OperationTotals.orderFree_byKey? hperm ha hb
  exact {
    collected := hcollected.same orderFree_latest hperm ha hb
    cycle := hcycle.same orderFree_max hperm ha hb
    ongoingBuckets := hongoing.same orderFree_max hperm ha hb
    perBucket := hperBucket.same KeyMap.joinsKeys_overwrite.flip.orderFree hperm ha hb
    lifeTime := hlifeTime.same orderFree_sumByKey? hperm ha hb
    lifeTimeLifecycle := hlifecycle.same orderFree_sumByKey? hperm ha hb
    lastMinute := congrArg₂ ScannerLastMinute.mk hactions hactionsLifecycle
    active := hactive.same (.of_comm mergeActive_right_comm) hperm ha hb }

/-- Equal apart from what is said of the single jobs. -/
structure BatchJobMetrics.SameTotals (a b : BatchJobMetrics) : Prop where
  collected : a.collected = b.collected
  jobs : a.jobs.keys = b.jobs.keys

theorem BatchJobMetrics.orderFree : OrderFree (Merge.merge? (α := BatchJobMetrics)) SameTotals := by
  intro s a b l l' hperm ha hb
  exact {
    collected := tracks_collected.same (.of_comm collectedAfter_right_comm) hperm ha hb
    jobs := tracks_jobs.same KeyMap.joinsKeys_overwrite.orderFree hperm ha hb }

/-- As old as each other: a resync is not added up. -/
def SiteResyncMetrics.SameTotals (a b : SiteResyncMetrics) : Prop := a.collected = b.collected

theorem SiteResyncMetrics.orderFree : OrderFree (Merge.merge? (α := SiteResyncMetrics)) SameTotals := by
  intro s a b l l' hperm ha hb
  exact tracks_collected.same orderFree_latest hperm ha hb

/-- Equal apart from names. -/
structure NetworkMetrics.SameTotals (a b : NetworkMetrics) : Prop where
  collected : a.collected = b.collected
  counters : { a.counters with name := "" } = { b.counters with name := "" }

theorem InterfaceCounters.orderFree : OrderFree merge? fun a b => { a with name := "" } = { b with name := "" } := by
  intro s a b l l' hperm ha hb
  have hcounters := eq_of_tracks_fields splits.tracks CheckedAdd.orderFree_unsigned hperm ha hb
  cases a
  cases b
  simpa [counters] using hcounters

theorem NetworkMetrics.orderFree : OrderFree merge? SameTotals := by
  intro s a b l l' hperm ha hb
  exact {
    collected := (splits.tracks _ (.inl rfl)).same orderFree_latest hperm ha hb
    counters := (splits.tracks _ (.inr rfl)).same InterfaceCounters.orderFree hperm ha hb }

/-- Equal apart from the node that is named. -/
structure MemoryMetrics.SameTotals (a b : MemoryMetrics) : Prop where
  collected : a.collected = b.collected
  memory : { a.memory with node := {} } = { b.memory with node := {} }

theorem MemoryUse.orderFree : OrderFree merge? fun a b => { a with node := {} } = { b with node := {} } := by
  intro s a b l l' hperm ha hb
  have hcounters := eq_of_tracks_fields splits.tracks CheckedAdd.orderFree_unsigned hperm ha hb
  cases a
  cases b
  simpa [counters] using hcounters

theorem MemoryMetrics.orderFree : OrderFree merge? SameTotals := by
  intro s a b l l' hperm ha hb
  exact {
    collected := (splits.tracks _ (.inl rfl)).same orderFree_latest hperm ha hb
    memory := (splits.tracks _ (.inr rfl)).same MemoryUse.orderFree hperm ha hb }

/-- Equal apart from times and loads, which are sums of doubles. -/
structure CpuMetrics.SameTotals (a b : CpuMetrics) : Prop where
  collected : a.collected = b.collected
  count : a.count = b.count

theorem CpuMetrics.orderFree : OrderFree merge? SameTotals := by
  intro s a b l l' hperm ha hb
  exact {
    collected := (splits.tracks _ (.inl rfl)).same orderFree_latest hperm ha hb
    count := (splits.tracks _ (.inr rfl)).same CheckedAdd.orderFree_signed hperm ha hb }

/-- Equal along every path apart from pings. -/
def RpcMetrics.SameTotals (a b : RpcMetrics) : Prop :=
  ∀ path, (a.at? path).map RpcCounters.withoutPings = (b.at? path).map RpcCounters.withoutPings

theorem RpcCounters.orderFree : OrderFree merge? fun a b => a.withoutPings = b.withoutPings := by
  intro s a b l l' hperm ha hb
  have hcollected := tracks_times.1.same orderFree_latest hperm ha hb
  have hlastConnect := tracks_times.2.1.same orderFree_latest hperm ha hb
  have hlastPong := tracks_times.2.2.same orderFree_latest hperm ha hb
  have hfields : ∀ p ∈ Part.fields counters add?, Tracks merge? p := fun p hp => splits.tracks p (.inr hp)
  have hcounters := eq_of_tracks_fields hfields CheckedAdd.orderFree_signed hperm ha hb
  simp only [counters, List.forall_mem_cons] at hcounters
  cases a
  cases b
  simp_all [withoutPings]

theorem RpcMetrics.orderFree : OrderFree merge? SameTotals := by
  intro s a b l l' hperm ha hb path
  have hrel := (splits.tracks _ ⟨path, rfl⟩).same (Merge.orderFree_slotFrom? RpcCounters.orderFree) hperm ha hb
  exact Merge.map_eq_of_rel hrel

/-- Equal apart from what the maps say in doubles and histograms. -/
structure RuntimeMetrics.SameTotals (a b : RuntimeMetrics) : Prop where
  integers : a.integers = b.integers
  doubles : a.doubles.keys = b.doubles.keys
  histograms : a.histograms.keys = b.histograms.keys
  count : a.count = b.count

theorem RuntimeMetrics.orderFree : OrderFree merge? SameTotals := by
  intro s a b l l' hperm ha hb
  obtain ⟨hintegers, hdoubles, hhistograms, hcount⟩ := tracks_parts
  exact {
    integers := hintegers.same orderFree_sumByKey? hperm ha hb
    doubles := hdoubles.same (KeyMap.joinsKeys_combine? _).orderFree hperm ha hb
    histograms := hhistograms.same (KeyMap.joinsKeys_combine? _).orderFree hperm ha hb
    count := hcount.same CheckedAdd.orderFree_signed hperm ha hb }

/-! ### Bundles -/

namespace MetricBundle

/-- The same categories, with the same totals in each. -/
structure SameTotals (a b : MetricBundle) : Prop where
  scanner : Option.Rel ScannerMetrics.SameTotals a.scanner b.scanner
  disk : a.disk = b.disk
  os : a.os = b.os
  batchJobs : Option.Rel BatchJobMetrics.SameTotals a.batchJobs b.batchJobs
  siteResync : Option.Rel SiteResyncMetrics.SameTotals a.siteResync b.siteResync
  network : Option.Rel NetworkMetrics.SameTotals a.network b.network
  memory : Option.Rel MemoryMetrics.SameTotals a.memory b.memory
  cpu : Option.Rel CpuMetrics.SameTotals a.cpu b.cpu
  rpc : Option.Rel RpcMetrics.SameTotals a.rpc b.rpc
  runtime : Option.Rel RuntimeMetrics.SameTotals a.runtime b.runtime

theorem SameTotals.has_eq {a b : MetricBundle} (h : a.SameTotals b) (c : Category) : a.has c = b.has c := by
  cases c with
  | scanner => exact Merge.isSome_eq_of_rel h.scanner
  | disk => exact congrArg Option.isSome h.disk
  | os => exact congrArg Option.isSome h.os
  | batchJobs => exact Merge.isSome_eq_of_rel h.batchJobs
  | siteResync => exact Merge.isSome_eq_of_rel h.siteResync
  | network => exact Merge.isSome_eq_of_rel h.network
  | memory => exact Merge.isSome_eq_of_rel h.memory
  | cpu => exact Merge.isSome_eq_of_rel h.cpu
  | rpc => exact Merge.isSome_eq_of_rel h.rpc
  | runtime => exact Merge.isSome_eq_of_rel h.runtime

theorem SameTotals.types_eq {a b : MetricBundle} (h : a.SameTotals b) : a.types = b.types := by
  rw [types, types, funext h.has_eq]

theorem orderFree : OrderFree merge? SameTotals := by
  intro s a b l l' hperm ha hb
  obtain ⟨hscanner, hdisk, hos, hbatchJobs, hsiteResync, hnetwork, hmemory, hcpu, hrpc, hruntime⟩ := tracks_slots
  exact {
    scanner := hscanner.same (Merge.orderFree_slot? ScannerMetrics.orderFree) hperm ha hb
    disk := Merge.eq_of_rel_eq (hdisk.same (Merge.orderFree_slot? DriveMetrics.orderFree) hperm ha hb)
    os := Merge.eq_of_rel_eq (hos.same (Merge.orderFree_slot? OsMetrics.orderFree) hperm ha hb)
    batchJobs := hbatchJobs.same (Merge.orderFree_slot? BatchJobMetrics.orderFree) hperm ha hb
    siteResync := hsiteResync.same (Merge.orderFree_slot? SiteResyncMetrics.orderFree) hperm ha hb
    network := hnetwork.same (Merge.orderFree_slot? NetworkMetrics.orderFree) hperm ha hb
    memory := hmemory.same (Merge.orderFree_slot? MemoryMetrics.orderFree) hperm ha hb
    cpu := hcpu.same (Merge.orderFree_slot? CpuMetrics.orderFree) hperm ha hb
    rpc := hrpc.same (Merge.orderFree_slot? RpcMetrics.orderFree) hperm ha hb
    runtime := hruntime.same (Merge.orderFree_slot? RuntimeMetrics.orderFree) hperm ha hb }

/-- The bundles merged in their order, beginning with the empty one. -/
def mergeAll? (ms : List MetricBundle) : Option MetricBundle := ms.foldlM merge? {}

theorem sameTotals_of_perm {ms ms' : List MetricBundle} {a b : MetricBundle} (hperm : ms.Perm ms')
    (ha : mergeAll? ms = some a) (hb : mergeAll? ms' = some b) : a.SameTotals b ∧ a.types = b.types := by
  have hsame : a.SameTotals b := orderFree hperm ha hb
  exact ⟨hsame, hsame.types_eq⟩

def northNode : MetricBundle where
  scanner := some { cycle := 7, active := ["/b"], perBucket := .ofList [("photos", [{ cycle := 7 }])] }
  disk := some { drives := 4, lifeTime := .ofList [("read", 10)] }
  batchJobs := some { collected := .ofUnixSeconds 60, jobs := .ofList [("j", { retries := 1 })] }
  rpc := some (.node { connected := 2, outQueue := -1 }
    (.ofList [("south", .node { connected := 1 } .empty .empty)]) .empty)

def southNode : MetricBundle where
  scanner := some { cycle := 5, active := ["/a"], perBucket := .ofList [("photos", [{ cycle := 5 }])] }
  disk := some { drives := 2, lifeTime := .ofList [("read", 1), ("write", 5)] }
  batchJobs := some { collected := .ofUnixSeconds 30, jobs := .ofList [("j", { retries := 2 })] }
  rpc := some (.node { connected := 1, outQueue := 3 }
    (.ofList [("north", .node { connected := 1 } .empty .empty)]) .empty)
  runtime := some { count := 1 }

theorem sameTotals_twoNodes : ∃ a b, mergeAll? [northNode, southNode] = some a ∧
    mergeAll? [southNode, northNode] = some b ∧ a.SameTotals b ∧ a.types = b.types := by
  have hnorthFirst : (mergeAll? [northNode, southNode]).isSome := by decide +kernel
  have hsouthFirst : (mergeAll? [southNode, northNode]).isSome := by decide +kernel
  obtain ⟨a, ha⟩ := Option.isSome_iff_exists.1 hnorthFirst
  obtain ⟨b, hb⟩ := Option.isSome_iff_exists.1 hsouthFirst
  have hperm : [northNode, southNode].Perm [southNode, northNode] := List.Perm.swap ..
  exact ⟨a, b, ha, hb, sameTotals_of_perm hperm ha hb⟩

end MetricBundle

end ClusterMetrics
