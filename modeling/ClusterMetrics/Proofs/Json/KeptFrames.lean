import ClusterMetrics.Proofs.Json.KeptMetrics
import ClusterMetrics.Proofs.RpcTrees

/-! # Calls, replies and frames that are read again as they were written

A tree of calls is kept however deep it is, as long as the reader may open the containers of its text: every level of the
tree opens one at least, so the reader looks deep enough (`RpcMetrics.height_le_nesting`). From it and from the other
metrics all that holds them is put together. -/

namespace ClusterMetrics

/-! ### Calls -/

structure RpcCounters.Storable (c : RpcCounters) : Prop where
  collected : c.collected.Storable
  lastPong : c.lastPong.Storable
  lastPing : c.lastPing.Storable
  longestPing : c.longestPing.Storable
  lastConnect : c.lastConnect.Storable

theorem RpcCounters.Storable.restores {c : RpcCounters} (h : c.Storable) : Restores c fields {} c := by
  refine .plain (.timestamp h.collected) ?_
  iterate 10 refine .plain (.int64 _) ?_
  refine .plain (.timestamp h.lastPong) ?_
  refine .plain (.double h.lastPing) ?_
  refine .plain (.double h.longestPing) ?_
  refine .plain (.timestamp h.lastConnect) ?_
  exact .nil

namespace RpcTree

theorem peersHeight_le_iff {ts : List (String × RpcTree)} {n : Nat} :
    peersHeight ts ≤ n ↔ ∀ p ∈ ts, p.2.height ≤ n := by
  induction ts with
  | nil => simp [peersHeight]
  | cons p ts ih => rw [peersHeight, Nat.max_le, List.forall_mem_cons, ih]

end RpcTree

namespace RpcMetrics

/-- The counters of every node are storable. -/
inductive Storable : RpcMetrics → Prop where
  | node {own : RpcCounters} {ds cs : KeyMap RpcMetrics} (hown : own.Storable) (hds : ∀ p ∈ ds.entries, Storable p.2)
      (hcs : ∀ p ∈ cs.entries, Storable p.2) : Storable (node own ds cs)

theorem height_node_le_iff {own : RpcCounters} {ds cs : KeyMap RpcMetrics} {n : Nat} :
    (node own ds cs).tree.height ≤ n + 1 ↔
      (∀ p ∈ ds.entries, p.2.tree.height ≤ n) ∧ ∀ p ∈ cs.entries, p.2.tree.height ≤ n := by
  have hpeers : ∀ ps : KeyMap RpcMetrics, RpcTree.peersHeight (ps.mapValues tree).entries ≤ n ↔
      ∀ p ∈ ps.entries, p.2.tree.height ≤ n := fun ps => RpcTree.peersHeight_le_iff.trans List.forall_mem_map
  rw [← hpeers, ← hpeers, ← Nat.max_le]
  exact Nat.succ_le_succ_iff

theorem exists_eq_succ_of_height_le {m : RpcMetrics} {n : Nat} (h : m.tree.height ≤ n) : ∃ k, n = k + 1 := by
  obtain ⟨⟨own, ds, cs⟩, hs⟩ := m
  cases n with
  | zero => cases h
  | succ k => exact ⟨k, rfl⟩

theorem nodup_names (peer : Codec RpcMetrics) : ((record peer).fields.map (·.name)).Nodup := by
  have hnames : (record peer).fields.map (·.name) = (record (codecWithin 0)).fields.map (·.name) := rfl
  rw [hnames]
  decide

theorem write_ne_null (m : RpcMetrics) : codec.write m ≠ .null := by
  obtain ⟨n, hn⟩ := exists_eq_succ_of_height_le (Nat.le_refl m.tree.height)
  show (codecWithin m.tree.height).write m ≠ .null
  rw [hn]
  exact Record.write_ne_null _ m

theorem record_keeps {peer : Codec RpcMetrics} {own : RpcCounters} {ds cs : KeyMap RpcMetrics} (hown : own.Storable)
    (hds : ∀ p ∈ ds.entries, peer.Keeps p.2) (hcs : ∀ p ∈ cs.entries, peer.Keeps p.2) :
    (record peer).codec.Keeps (node own ds cs) := by
  have hds₀ : (record peer).default.byDestination = .empty := rfl
  have hcs₀ : (record peer).default.byCaller = .empty := rfl
  refine Record.keeps (nodup_names peer) ?_
  refine .append (.within (fun c m => own_node ..) (fun c c' m => by simp) node_eta hown.restores) ?_
  refine .optionalMap (by simpa using hds) (by simp [hds₀]) ?_
  refine .optionalMap (by simpa using hcs) (by simp [hcs₀]) ?_
  simp only [own_node, byDestination_node, byCaller_node]
  exact .nil

/-- With codecs of peers that write alike, trees are written alike. -/
theorem record_write_congr {peer peer' : Codec RpcMetrics} {own : RpcCounters} {ds cs : KeyMap RpcMetrics}
    (hds : ∀ p ∈ ds.entries, peer.write p.2 = peer'.write p.2)
    (hcs : ∀ p ∈ cs.entries, peer.write p.2 = peer'.write p.2) :
    (record peer).codec.write (node own ds cs) = (record peer').codec.write (node own ds cs) := by
  have hmap : ∀ ps : KeyMap RpcMetrics, (∀ p ∈ ps.entries, peer.write p.2 = peer'.write p.2) →
      peer.keyMap.write ps = peer'.keyMap.write ps := fun ps hps =>
    congrArg Json.object (List.map_congr_left fun p hp => congrArg (Prod.mk _) (hps p hp))
  refine congrArg Json.object ?_
  simp only [record, List.filterMap_append, List.filterMap_cons, Field.write, Field.optionalMap, Field.omittable,
    Codec.orDefault, byDestination_node, byCaller_node, hmap ds hds, hmap cs hcs]

/-- Deep enough codecs write alike. -/
theorem codecWithin_write {m : RpcMetrics} {n k : Nat} (hn : m.tree.height ≤ n) (hk : m.tree.height ≤ k) :
    (codecWithin n).write m = (codecWithin k).write m := by
  induction m using RpcMetrics.induction generalizing n k with
  | node own ds cs ihds ihcs =>
    obtain ⟨n, rfl⟩ := exists_eq_succ_of_height_le hn
    obtain ⟨k, rfl⟩ := exists_eq_succ_of_height_le hk
    obtain ⟨hnds, hncs⟩ := height_node_le_iff.1 hn
    obtain ⟨hkds, hkcs⟩ := height_node_le_iff.1 hk
    exact record_write_congr (fun p hp => ihds p hp (hnds p hp) (hkds p hp)) fun p hp =>
      ihcs p hp (hncs p hp) (hkcs p hp)

theorem codecWithin_keeps {m : RpcMetrics} (h : m.Storable) {n : Nat} (hn : m.tree.height ≤ n) :
    (codecWithin n).Keeps m := by
  induction h generalizing n with
  | node hown _ _ ihds ihcs =>
    obtain ⟨n, rfl⟩ := exists_eq_succ_of_height_le hn
    obtain ⟨hds, hcs⟩ := height_node_le_iff.1 hn
    exact record_keeps hown (fun p hp => ihds p hp (hds p hp)) fun p hp => ihcs p hp (hcs p hp)

/-- The trees of the peers open two containers less than the tree. -/
theorem nesting_peer_lt {peer : Codec RpcMetrics} {m : RpcMetrics} {name : String} (get : RpcMetrics → KeyMap RpcMetrics)
    {set : KeyMap RpcMetrics → RpcMetrics → RpcMetrics} (hf : .optionalMap name peer get set ∈ (record peer).fields)
    {p : String × RpcMetrics} (hp : p ∈ (get m).entries) :
    (peer.write p.2).nesting + 1 < ((record peer).codec.write m).nesting := by
  have ho : (get m).isEmpty = false := by
    rw [KeyMap.isEmpty, List.isEmpty_eq_false_iff]
    exact List.ne_nil_of_mem hp
  exact Nat.lt_of_le_of_lt (Codec.nesting_value_lt hp) (Record.nesting_field_lt hf ho)

/-- Every level of a tree opens a container at least. -/
theorem height_le_nesting {m : RpcMetrics} {n : Nat} (hn : m.tree.height ≤ n) :
    m.tree.height ≤ ((codecWithin n).write m).nesting := by
  induction m using RpcMetrics.induction generalizing n with
  | node own ds cs ihds ihcs =>
    obtain ⟨n, rfl⟩ := exists_eq_succ_of_height_le hn
    obtain ⟨hds, hcs⟩ := height_node_le_iff.1 hn
    have hlt : ∀ p : String × RpcMetrics, p ∈ ds.entries ∨ p ∈ cs.entries →
        ((codecWithin n).write p.2).nesting + 1 < ((codecWithin (n + 1)).write (node own ds cs)).nesting := by
      rintro p (hp | hp)
      · refine nesting_peer_lt byDestination (List.mem_append_right _ List.mem_cons_self) ?_
        rwa [byDestination_node]
      · refine nesting_peer_lt byCaller (List.mem_append_right _ (List.mem_cons_of_mem _ List.mem_cons_self)) ?_
        rwa [byCaller_node]
    refine height_node_le_iff.2 ⟨fun p hp => ?_, fun p hp => ?_⟩
    · exact Nat.le_trans (ihds p hp (hds p hp)) (Nat.le_of_lt_succ (Nat.lt_of_succ_lt (hlt p (.inl hp))))
    · exact Nat.le_trans (ihcs p hp (hcs p hp)) (Nat.le_of_lt_succ (Nat.lt_of_succ_lt (hlt p (.inr hp))))

theorem Storable.keeps {m : RpcMetrics} (h : m.Storable) : codec.Keeps m := by
  refine ⟨(codecWithin_keeps h (Nat.le_refl _)).wellFormed, fun {depth} hdepth => ?_⟩
  -- The writer goes as deep as the tree, the reader as deep as it may: there they write alike.
  have hheight : m.tree.height ≤ depth := Nat.le_trans (height_le_nesting (Nat.le_refl _)) hdepth
  have hwrite : codec.write m = (codecWithin depth).write m := codecWithin_write (Nat.le_refl _) hheight
  rw [hwrite] at hdepth ⊢
  exact (codecWithin_keeps h hheight).read_write hdepth

end RpcMetrics

/-! ### Bundles -/

structure MetricBundle.Storable (m : MetricBundle) : Prop where
  scanner : ∀ a ∈ m.scanner, a.Storable
  disk : ∀ a ∈ m.disk, a.Storable
  os : ∀ a ∈ m.os, a.Storable
  batchJobs : ∀ a ∈ m.batchJobs, a.Storable
  siteResync : ∀ a ∈ m.siteResync, a.Storable
  network : ∀ a ∈ m.network, a.Storable
  memory : ∀ a ∈ m.memory, a.Storable
  cpu : ∀ a ∈ m.cpu, a.Storable
  rpc : ∀ a ∈ m.rpc, a.Storable
  runtime : ∀ a ∈ m.runtime, a.Storable

theorem MetricBundle.Storable.keeps {m : MetricBundle} (h : m.Storable) : codec.Keeps m := by
  refine Record.keeps (by decide) ?_
  refine .optional (fun a ha => (h.scanner a ha).keeps) (Record.write_ne_null _) rfl ?_
  refine .optional (fun a ha => (h.disk a ha).keeps) (Record.write_ne_null _) rfl ?_
  refine .optional (fun a ha => (h.os a ha).keeps) (Record.write_ne_null _) rfl ?_
  refine .optional (fun a ha => (h.batchJobs a ha).keeps) (Record.write_ne_null _) rfl ?_
  refine .optional (fun a ha => (h.siteResync a ha).keeps) (Record.write_ne_null _) rfl ?_
  refine .optional (fun a ha => (h.network a ha).keeps) (Record.write_ne_null _) rfl ?_
  refine .optional (fun a ha => (h.memory a ha).keeps) (Record.write_ne_null _) rfl ?_
  refine .optional (fun a ha => (h.cpu a ha).keeps) (Record.write_ne_null _) rfl ?_
  refine .optional (fun a ha => (h.rpc a ha).keeps) RpcMetrics.write_ne_null rfl ?_
  refine .optional (fun a ha => (h.runtime a ha).keeps) (Record.write_ne_null _) rfl ?_
  exact .nil

/-! ### Replies of single nodes -/

/-- As many nanoseconds as 64 bits hold. -/
def Duration.Storable (d : Duration) : Prop := d.nanoseconds ≤ 0xFFFFFFFFFFFFFFFF

theorem Duration.Storable.keeps {d : Duration} (h : d.Storable) : codec.Keeps d := by
  have hkept := Codec.Keeps.uint64 d.saturatedNanoseconds
  have hnanoseconds : ofNanoseconds d.saturatedNanoseconds = d := by
    have hle : d.nanoseconds ≤ 0xFFFFFFFFFFFFFFFF := h
    refine ext ?_
    rw [saturatedNanoseconds, Nat.min_eq_left hle]
    exact UInt64.toNat_ofNat_of_lt' (Nat.lt_succ_of_le hle)
  refine ⟨hkept.wellFormed, fun {depth} hdepth => ?_⟩
  have hread : (Codec.uint64.read depth (Codec.uint64.write d.saturatedNanoseconds)).map ofNanoseconds = some d := by
    rw [hkept.read_write hdepth, Option.map_some, hnanoseconds]
  exact hread

theorem Duration.nestsWithin {n : Nat} : codec.NestsWithin n := fun _ => Nat.zero_le n

structure LatencySummary.Storable (s : LatencySummary) : Prop where
  mean : s.mean.Storable
  p50 : s.p50.Storable
  p75 : s.p75.Storable
  p95 : s.p95.Storable
  p99 : s.p99.Storable
  p999 : s.p999.Storable
  slowest : s.slowest.Storable
  fastest : s.fastest.Storable
  max : s.max.Storable
  min : s.min.Storable
  deviation : s.deviation.Storable
  range : s.range.Storable

theorem LatencySummary.Storable.keeps {s : LatencySummary} (h : s.Storable) : codec.Keeps s := by
  refine Record.keeps (by decide) ?_
  refine .required h.mean.keeps ?_
  refine .required h.p50.keeps ?_
  refine .required h.p75.keeps ?_
  refine .required h.p95.keeps ?_
  refine .required h.p99.keeps ?_
  refine .required h.p999.keeps ?_
  refine .required h.slowest.keeps ?_
  refine .required h.fastest.keeps ?_
  refine .required h.max.keeps ?_
  refine .required h.min.keeps ?_
  refine .required h.deviation.keeps ?_
  refine .required h.range.keeps ?_
  exact .nil

theorem LatencySummary.nestsWithin {n : Nat} : codec.NestsWithin (n + 1) := by
  refine .record ?_
  simp only [record, List.forall_mem_cons]
  iterate 12 refine ⟨Duration.nestsWithin, ?_⟩
  exact nofun

structure NodeLatency.Storable (l : NodeLatency) : Prop where
  timings : l.timings.Storable

theorem NodeLatency.Storable.keeps {l : NodeLatency} (h : l.Storable) : codec.Keeps l := by
  refine Record.keeps (by decide) ?_
  refine .append (.within (fun _ _ => rfl) (fun _ _ _ => rfl) (fun _ => rfl) l.node.restores) ?_
  refine .plain h.timings.keeps ?_
  exact .nil

theorem NodeLatency.nestsWithin {n : Nat} : codec.NestsWithin (n + 2) := by
  refine .record (List.forall_mem_append.2 ⟨List.forall_mem_map.2 NodeStatus.forall_nestsWithin, ?_⟩)
  simp only [List.forall_mem_cons]
  exact ⟨LatencySummary.nestsWithin, nofun⟩

structure NodeReport.Storable (r : NodeReport) : Prop where
  metrics : r.metrics.Storable
  byDisk : ∀ p ∈ r.byDisk.entries, p.2.Storable

theorem NodeReport.Storable.keeps {r : NodeReport} (h : r.Storable) : codec.Keeps r := by
  have hdisks : DriveMetrics.codec.keyMap.Keeps r.byDisk := .keyMap fun p hp => (h.byDisk p hp).keeps
  refine Record.keeps (by decide) ?_
  refine .append (.within (fun _ _ => rfl) (fun _ _ _ => rfl) (fun _ => rfl) r.node.restores) ?_
  refine .plain h.metrics.keeps ?_
  refine .omittable hdisks (fun ho => ?_) ?_
  · rw [KeyMap.eq_empty_of_isEmpty ho]
    rfl
  exact .nil

/-! ### Frames -/

structure Frame.Storable (f : Frame) : Prop where
  total : f.total.Storable
  byHost : ∀ p ∈ f.byHost.entries, p.2.Storable
  byDisk : ∀ p ∈ f.byDisk.entries, p.2.Storable

theorem Frame.Storable.keeps {f : Frame} (h : f.Storable) : codec.Keeps f := by
  have hhosts : Codec.text.list.Keeps f.hosts := .list fun host _ => .text host
  refine Record.keeps (by decide) ?_
  refine .optionalList (fun error _ => .text error) rfl ?_
  refine .plain (.orDefault hhosts nofun) ?_
  refine .plain h.total.keeps ?_
  refine .optionalMap (fun p hp => (h.byHost p hp).keeps) rfl ?_
  refine .optionalMap (fun p hp => (h.byDisk p hp).keeps) rfl ?_
  refine .plain (.bool _) ?_
  exact .nil

end ClusterMetrics
