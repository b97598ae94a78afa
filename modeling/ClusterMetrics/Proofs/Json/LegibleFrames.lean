import ClusterMetrics.Proofs.Json.KeptFrames
import ClusterMetrics.Proofs.Json.LegibleMetrics

/-! # Frames that are read again at all

A text of a frame that is not nested too deep is read exactly if the timestamps and doubles within it are legible
(`Frame.reopens`). Of frames only calls can be nested deep, and those that were read are no deeper than the reader
allows. -/

namespace ClusterMetrics
open HasLeaves (leaves)

section
variable {P : Leaf → Prop}

/-! ### Calls -/

namespace RpcCounters

instance : HasLeaves RpcCounters :=
  ⟨fun c => leaves c.collected ++ leaves c.lastPong ++ leaves c.lastPing ++ leaves c.longestPing ++ leaves c.lastConnect⟩

theorem every_iff {c : RpcCounters} : Every P c ↔ Every P c.collected ∧ Every P c.lastPong ∧ Every P c.lastPing ∧
    Every P c.longestPing ∧ Every P c.lastConnect := by
  simp only [Every, leaves, List.forall_mem_append, and_assoc]

theorem reopensFields (c : RpcCounters) : ReopensFields c fields (Every Leaf.IsLegible c) := by
  rw [every_iff]
  refine .plain (.timestamp _) ?_
  iterate 10 refine .keeps (.int64 _) rfl ?_
  refine .plain (.timestamp _) ?_
  refine .plain (.double _) ?_
  refine .plain (.double _) ?_
  refine .last ?_
  refine .plain (.timestamp _) ?_
  exact .nil

theorem forall_nestsWithin {n : Nat} : ∀ f ∈ fields, f.codec.NestsWithin n := by
  simp only [fields, List.forall_mem_cons]
  refine ⟨.timestamp, ?_⟩
  iterate 10 refine ⟨.int64, ?_⟩
  exact ⟨.timestamp, .double, .double, .timestamp, List.forall_mem_nil _⟩

theorem every_isDecoded_default : Every Leaf.IsDecoded ({} : RpcCounters) := by
  have hzero : Every Leaf.IsDecoded Binary64.zero := every_double.2 ⟨_, rfl⟩
  exact every_iff.2 ⟨every_isDecoded_zero, every_isDecoded_zero, hzero, hzero, every_isDecoded_zero⟩

theorem preserves_isDecoded : ∀ f ∈ fields, f.Preserves (Every Leaf.IsDecoded) := by
  simp only [fields, List.forall_mem_cons]
  refine ⟨Field.preserves .isDecoded_timestamp fun v c hv hc => ?_, ?_⟩
  · exact every_iff.2 ⟨hv, (every_iff.1 hc).2⟩
  iterate 10 refine ⟨Field.preserves_of_set fun _ _ h => h, ?_⟩
  refine ⟨Field.preserves .isDecoded_timestamp fun v c hv hc => ?_,
    Field.preserves .isDecoded_double fun v c hv hc => ?_, Field.preserves .isDecoded_double fun v c hv hc => ?_,
    Field.preserves .isDecoded_timestamp fun v c hv hc => ?_, List.forall_mem_nil _⟩
  all_goals
    obtain ⟨hcollected, hlastPong, hlastPing, hlongestPing, hlastConnect⟩ := every_iff.1 hc
  · exact every_iff.2 ⟨hcollected, hv, hlastPing, hlongestPing, hlastConnect⟩
  · exact every_iff.2 ⟨hcollected, hlastPong, hv, hlongestPing, hlastConnect⟩
  · exact every_iff.2 ⟨hcollected, hlastPong, hlastPing, hv, hlastConnect⟩
  · exact every_iff.2 ⟨hcollected, hlastPong, hlastPing, hlongestPing, hv⟩

end RpcCounters

namespace RpcTree

mutual

/-- The leaves of the counters of all nodes. -/
def leaves : RpcTree → List Leaf
  | node own ds cs => HasLeaves.leaves own ++ peersLeaves ds ++ peersLeaves cs

def peersLeaves : List (String × RpcTree) → List Leaf
  | [] => []
  | (_, t) :: rest => t.leaves ++ peersLeaves rest

end

theorem forall_mem_peersLeaves {ts : List (String × RpcTree)} :
    (∀ l ∈ peersLeaves ts, P l) ↔ ∀ p ∈ ts, ∀ l ∈ p.2.leaves, P l := by
  induction ts with
  | nil => simp [peersLeaves]
  | cons p ts ih => rw [peersLeaves, List.forall_mem_append, List.forall_mem_cons, ih]

/-- No deeper than `n`, and with leaves that satisfy `P`. -/
structure Within (P : Leaf → Prop) (n : Nat) (t : RpcTree) : Prop where
  height_le : t.height ≤ n
  forall_mem_leaves : ∀ l ∈ t.leaves, P l

variable {own : RpcCounters} {ds cs : List (String × RpcTree)} {n : Nat}

theorem Within.exists_eq_succ {t : RpcTree} (h : t.Within P n) : ∃ k, n = k + 1 := by
  cases t
  cases n with
  | zero => cases h.height_le
  | succ k => exact ⟨k, rfl⟩

theorem forall_mem_leaves_node_iff : (∀ l ∈ (node own ds cs).leaves, P l) ↔
    Every P own ∧ (∀ p ∈ ds, ∀ l ∈ p.2.leaves, P l) ∧ ∀ p ∈ cs, ∀ l ∈ p.2.leaves, P l := by
  rw [leaves, List.forall_mem_append, List.forall_mem_append, forall_mem_peersLeaves, forall_mem_peersLeaves, and_assoc]
  rfl

theorem within_node_iff : (node own ds cs).Within P (n + 1) ↔
    Every P own ∧ (∀ p ∈ ds, p.2.Within P n) ∧ ∀ p ∈ cs, p.2.Within P n := by
  have hheight : (node own ds cs).height ≤ n + 1 ↔ (∀ p ∈ ds, p.2.height ≤ n) ∧ ∀ p ∈ cs, p.2.height ≤ n := by
    rw [height, Nat.add_le_add_iff_right, Nat.max_le, peersHeight_le_iff, peersHeight_le_iff]
  constructor
  · rintro ⟨hle, hleaves⟩
    obtain ⟨hds, hcs⟩ := hheight.1 hle
    obtain ⟨hown, hdsLeaves, hcsLeaves⟩ := forall_mem_leaves_node_iff.1 hleaves
    exact ⟨hown, fun p hp => ⟨hds p hp, hdsLeaves p hp⟩, fun p hp => ⟨hcs p hp, hcsLeaves p hp⟩⟩
  · rintro ⟨hown, hds, hcs⟩
    refine ⟨hheight.2 ⟨fun p hp => (hds p hp).1, fun p hp => (hcs p hp).1⟩, forall_mem_leaves_node_iff.2 ⟨hown, ?_, ?_⟩⟩
    · exact fun p hp => (hds p hp).2
    · exact fun p hp => (hcs p hp).2

end RpcTree

namespace RpcMetrics

instance : HasLeaves RpcMetrics := ⟨fun m => m.tree.leaves⟩

theorem every_node_iff {own : RpcCounters} {ds cs : KeyMap RpcMetrics} :
    Every P (node own ds cs) ↔ Every P own ∧ Every P ds ∧ Every P cs := by
  have hpeers : ∀ ps : KeyMap RpcMetrics, (∀ p ∈ (ps.mapValues tree).entries, ∀ l ∈ p.2.leaves, P l) ↔ Every P ps :=
    fun ps => List.forall_mem_map.trans every_keyMap.symm
  rw [← hpeers, ← hpeers]
  exact RpcTree.forall_mem_leaves_node_iff

theorem every_iff {m : RpcMetrics} : Every P m ↔ Every P m.own ∧ Every P m.byDestination ∧ Every P m.byCaller := by
  rw [← every_node_iff, node_eta]

theorem record_reopens {peer : Codec RpcMetrics} {m : RpcMetrics}
    (hds : ∀ p ∈ m.byDestination.entries, peer.Reopens p.2) (hcs : ∀ p ∈ m.byCaller.entries, peer.Reopens p.2) :
    (record peer).codec.Reopens m := by
  refine Record.reopens (nodup_names peer) every_iff ?_
  refine .append (.within m.own.reopensFields) ?_
  refine .optionalMap hds ?_
  refine .last ?_
  refine .optionalMap hcs ?_
  exact .nil

theorem codecWithin_reopens {m : RpcMetrics} {n : Nat} (hn : m.tree.height ≤ n) : (codecWithin n).Reopens m := by
  induction m using RpcMetrics.induction generalizing n with
  | node own ds cs ihds ihcs =>
    obtain ⟨n, rfl⟩ := exists_eq_succ_of_height_le hn
    obtain ⟨hds, hcs⟩ := height_node_le_iff.1 hn
    refine record_reopens (fun p hp => ?_) fun p hp => ?_
    · rw [byDestination_node] at hp
      exact ihds p hp (hds p hp)
    · rw [byCaller_node] at hp
      exact ihcs p hp (hcs p hp)

theorem reopens (m : RpcMetrics) : codec.Reopens m := by
  refine ⟨(codecWithin_reopens (Nat.le_refl m.tree.height)).wellFormed, fun {depth} hdepth => ?_⟩
  have hheight : m.tree.height ≤ depth := Nat.le_trans (height_le_nesting (Nat.le_refl _)) hdepth
  have hwrite : codec.write m = (codecWithin depth).write m := codecWithin_write (Nat.le_refl _) hheight
  rw [hwrite] at hdepth ⊢
  exact (codecWithin_reopens hheight).isSome_read hdepth

/-- There is no level without peers. -/
theorem nesting_peers_le {peer : Codec RpcMetrics} {ps : KeyMap RpcMetrics} {k : Nat}
    (hheight : ∀ p ∈ ps.entries, p.2.tree.height ≤ k) (hlt : ∀ p ∈ ps.entries, (peer.write p.2).nesting < 2 * k)
    (hne : ps.isEmpty = false) : (peer.keyMap.write ps).nesting ≤ 2 * k := by
  obtain ⟨p, hp⟩ := List.exists_mem_of_ne_nil _ (List.isEmpty_eq_false_iff.1 hne)
  obtain ⟨k, rfl⟩ := exists_eq_succ_of_height_le (hheight p hp)
  exact Codec.nesting_keyMap_le fun p hp => Nat.le_of_lt_succ (hlt p hp)

/-- A level of a tree opens a container for the node and one for its peers, if it has any. -/
theorem nesting_codecWithin_lt {m : RpcMetrics} {n k : Nat} (hn : m.tree.height ≤ n) (hk : m.tree.height ≤ k) :
    ((codecWithin n).write m).nesting < 2 * k := by
  induction m using RpcMetrics.induction generalizing n k with
  | node own ds cs ihds ihcs =>
    obtain ⟨n, rfl⟩ := exists_eq_succ_of_height_le hn
    obtain ⟨k, rfl⟩ := exists_eq_succ_of_height_le hk
    obtain ⟨hnds, hncs⟩ := height_node_le_iff.1 hn
    obtain ⟨hkds, hkcs⟩ := height_node_le_iff.1 hk
    have hfields : ∀ f ∈ (record (codecWithin n)).fields, f.isOmitted (f.get (node own ds cs)) = false →
        (f.codec.write (f.get (node own ds cs))).nesting ≤ 2 * k := by
      refine List.forall_mem_append.2 ⟨List.forall_mem_map.2 fun f hf _ => RpcCounters.forall_nestsWithin f hf _, ?_⟩
      simp only [List.forall_mem_cons]
      refine ⟨?_, ?_, List.forall_mem_nil _⟩
      · show (node own ds cs).byDestination.isEmpty = false →
          ((codecWithin n).keyMap.write (node own ds cs).byDestination).nesting ≤ 2 * k
        rw [byDestination_node]
        exact nesting_peers_le hkds fun p hp => ihds p hp (hnds p hp) (hkds p hp)
      · show (node own ds cs).byCaller.isEmpty = false →
          ((codecWithin n).keyMap.write (node own ds cs).byCaller).nesting ≤ 2 * k
        rw [byCaller_node]
        exact nesting_peers_le hkcs fun p hp => ihcs p hp (hncs p hp) (hkcs p hp)
    have hle := Record.nesting_write_le hfields
    show ((record (codecWithin n)).codec.write (node own ds cs)).nesting < 2 * (k + 1)
    omega

theorem nesting_lt {m : RpcMetrics} {k : Nat} (h : m.tree.height ≤ k) : (codec.write m).nesting < 2 * k :=
  nesting_codecWithin_lt (Nat.le_refl _) h

theorem within_node_iff {own : RpcCounters} {ds cs : KeyMap RpcMetrics} {n : Nat} :
    (node own ds cs).tree.Within P (n + 1) ↔
      Every P own ∧ (∀ p ∈ ds.entries, p.2.tree.Within P n) ∧ ∀ p ∈ cs.entries, p.2.tree.Within P n := by
  have hpeers : ∀ ps : KeyMap RpcMetrics, (∀ p ∈ (ps.mapValues tree).entries, p.2.Within P n) ↔
      ∀ p ∈ ps.entries, p.2.tree.Within P n := fun ps => List.forall_mem_map
  rw [← hpeers, ← hpeers]
  exact RpcTree.within_node_iff

theorem within_iff {m : RpcMetrics} {n : Nat} : m.tree.Within P (n + 1) ↔ Every P m.own ∧
    (∀ p ∈ m.byDestination.entries, p.2.tree.Within P n) ∧ ∀ p ∈ m.byCaller.entries, p.2.tree.Within P n := by
  rw [← within_node_iff, node_eta]

theorem record_yieldsAt {peer : Codec RpcMetrics} {depth n : Nat} (h : peer.keyMap.YieldsAt depth fun ps =>
    ∀ p ∈ ps.entries, p.2.tree.Within Leaf.IsDecoded n) :
    (record peer).codec.YieldsAt (depth + 1) fun m => m.tree.Within Leaf.IsDecoded (n + 1) := by
  have hmap := h.orDefault nofun
  refine Record.yieldsAt (within_iff.2 ⟨RpcCounters.every_isDecoded_default, nofun, nofun⟩) fun f hf => ?_
  rcases List.mem_append.1 hf with hf | hf
  · obtain ⟨g, hg, rfl⟩ := List.mem_map.1 hf
    intro j s t ht hs
    obtain ⟨v, hv, rfl⟩ := Option.map_eq_some_iff.1 ht
    have hread : g.read depth j s.own = some (g.set v s.own) := congrArg (Option.map (g.set · s.own)) hv
    obtain ⟨hown, hpeers⟩ := within_iff.1 hs
    exact within_node_iff.2 ⟨RpcCounters.preserves_isDecoded g hg hread hown, hpeers⟩
  · simp only [List.mem_cons, List.not_mem_nil, or_false] at hf
    obtain rfl | rfl := hf
    · refine Field.preservesAt hmap fun v s hv hs => ?_
      obtain ⟨hown, -, hcs⟩ := within_iff.1 hs
      exact within_node_iff.2 ⟨hown, hv, hcs⟩
    · refine Field.preservesAt hmap fun v s hv hs => ?_
      obtain ⟨hown, hds, -⟩ := within_iff.1 hs
      exact within_node_iff.2 ⟨hown, hds, hv⟩

/-- A level of a tree takes two of the containers that the reader may open. -/
theorem codecWithin_yieldsAt (n depth : Nat) :
    (codecWithin n).YieldsAt depth fun m => m.tree.Within Leaf.IsDecoded ((depth + 1) / 2) := by
  induction n generalizing depth with
  | zero => exact nofun
  | succ n ih =>
    cases depth with
    | zero =>
      intro j m hm
      cases j <;> cases hm
    | succ depth =>
      have hhalf : (depth + 1 + 1) / 2 = depth / 2 + 1 := by omega
      rw [hhalf]
      refine record_yieldsAt ?_
      cases depth with
      | zero => exact nofun
      | succ depth => exact (ih depth).keyMap

theorem yieldsAt (depth : Nat) : codec.YieldsAt depth fun m => m.tree.Within Leaf.IsDecoded ((depth + 1) / 2) :=
  codecWithin_yieldsAt depth depth

theorem yields_isDecoded : codec.Yields (Every Leaf.IsDecoded) := fun depth _ _ h =>
  (yieldsAt depth h).forall_mem_leaves

end RpcMetrics

/-! ### Bundles -/

namespace MetricBundle

instance : HasLeaves MetricBundle where
  leaves m := leaves m.scanner ++ leaves m.disk ++ leaves m.os ++ leaves m.batchJobs ++ leaves m.siteResync ++
    leaves m.network ++ leaves m.memory ++ leaves m.cpu ++ leaves m.rpc ++ leaves m.runtime

theorem every_iff {m : MetricBundle} : Every P m ↔ Every P m.scanner ∧ Every P m.disk ∧ Every P m.os ∧
    Every P m.batchJobs ∧ Every P m.siteResync ∧ Every P m.network ∧ Every P m.memory ∧ Every P m.cpu ∧ Every P m.rpc ∧
    Every P m.runtime := by
  have happend : Every P m ↔ ∀ l ∈ leaves m.scanner ++ leaves m.disk ++ leaves m.os ++ leaves m.batchJobs ++
      leaves m.siteResync ++ leaves m.network ++ leaves m.memory ++ leaves m.cpu ++ leaves m.rpc ++ leaves m.runtime,
      P l := Iff.rfl
  rw [happend]
  simp only [List.forall_mem_append, and_assoc]
  rfl

theorem reopens (m : MetricBundle) : codec.Reopens m := by
  refine Record.reopens (by decide) every_iff ?_
  refine .optional (fun a _ => a.reopens) (Record.write_ne_null _) ?_
  refine .optional (fun a _ => a.reopens) (Record.write_ne_null _) ?_
  refine .optional (fun a _ => a.reopens) (Record.write_ne_null _) ?_
  refine .optional (fun a _ => a.reopens) (Record.write_ne_null _) ?_
  refine .optional (fun a _ => a.reopens) (Record.write_ne_null _) ?_
  refine .optional (fun a _ => a.reopens) (Record.write_ne_null _) ?_
  refine .optional (fun a _ => a.reopens) (Record.write_ne_null _) ?_
  refine .optional (fun a _ => a.reopens) (Record.write_ne_null _) ?_
  refine .optional (fun a _ => a.reopens) RpcMetrics.write_ne_null ?_
  refine .last ?_
  refine .optional (fun a _ => a.reopens) (Record.write_ne_null _) ?_
  exact .nil

theorem every_isDecoded_default : Every Leaf.IsDecoded ({} : MetricBundle) :=
  every_iff.2 ⟨every_none, every_none, every_none, every_none, every_none, every_none, every_none, every_none,
    every_none, every_none⟩

theorem yields_isDecoded : codec.Yields (Every Leaf.IsDecoded) := by
  refine Record.yields every_isDecoded_default ?_
  simp only [record, List.forall_mem_cons]
  refine ⟨Field.preserves ScannerMetrics.yields_isDecoded.every_option ?_,
    Field.preserves DriveMetrics.yields_isDecoded.every_option ?_,
    Field.preserves OsMetrics.yields_isDecoded.every_option ?_,
    Field.preserves BatchJobMetrics.yields_isDecoded.every_option ?_,
    Field.preserves SiteResyncMetrics.yields_isDecoded.every_option ?_,
    Field.preserves NetworkMetrics.yields_isDecoded.every_option ?_,
    Field.preserves MemoryMetrics.yields_isDecoded.every_option ?_,
    Field.preserves CpuMetrics.yields_isDecoded.every_option ?_,
    Field.preserves RpcMetrics.yields_isDecoded.every_option ?_,
    Field.preserves RuntimeMetrics.yields_isDecoded.every_option ?_, List.forall_mem_nil _⟩
  all_goals
    intro v m hv hm
    have hm := every_iff.1 hm
    refine every_iff.2 ?_
    simp only [hm, hv, and_self]

theorem yieldsAt_height (depth : Nat) :
    codec.YieldsAt (depth + 1) fun m => ∀ r ∈ m.rpc, r.tree.height ≤ (depth + 1) / 2 := by
  have hrpc : RpcMetrics.codec.YieldsAt depth fun r => r.tree.height ≤ (depth + 1) / 2 := fun _ _ h =>
    (RpcMetrics.yieldsAt depth h).height_le
  refine Record.yieldsAt nofun ?_
  simp only [record, List.forall_mem_cons]
  iterate 8 refine ⟨Field.preservesAt_of_set fun _ _ h => h, ?_⟩
  exact ⟨Field.preservesAt hrpc.option fun _ _ hv _ => hv, Field.preservesAt_of_set fun _ _ h => h,
    List.forall_mem_nil _⟩

/-- Only calls can be nested deep. -/
theorem nesting_write_le {m : MetricBundle} {n k : Nat} (h : ∀ r ∈ m.rpc, r.tree.height ≤ k) (hk : 2 * k ≤ n + 6) :
    (codec.write m).nesting ≤ n + 6 := by
  have hrpc : (RpcMetrics.codec.option.write m.rpc).nesting ≤ n + 5 := by
    cases hm : m.rpc with
    | none => exact Nat.zero_le _
    | some r =>
      have hlt := RpcMetrics.nesting_lt (h r hm)
      show (RpcMetrics.codec.write r).nesting ≤ n + 5
      omega
  refine Record.nesting_write_le ?_
  simp only [record, List.forall_mem_cons]
  exact ⟨fun _ => ScannerMetrics.nestsWithin.option _, fun _ => DriveMetrics.nestsWithin.option _,
    fun _ => OsMetrics.nestsWithin.option _, fun _ => BatchJobMetrics.nestsWithin.option _,
    fun _ => SiteResyncMetrics.nestsWithin.option _, fun _ => NetworkMetrics.nestsWithin.option _,
    fun _ => MemoryMetrics.nestsWithin.option _, fun _ => CpuMetrics.nestsWithin.option _, fun _ => hrpc,
    fun _ => RuntimeMetrics.nestsWithin.option _, List.forall_mem_nil _⟩

end MetricBundle

/-! ### Frames -/

namespace Frame

instance : HasLeaves Frame := ⟨fun f => leaves f.total ++ leaves f.byHost ++ leaves f.byDisk⟩

theorem every_iff {f : Frame} : Every P f ↔ Every P f.total ∧ Every P f.byHost ∧ Every P f.byDisk := by
  simp only [Every, leaves, List.forall_mem_append, and_assoc]

theorem reopens (f : Frame) : codec.Reopens f := by
  have hhosts : Codec.text.list.Keeps f.hosts := .list fun host _ => .text host
  have hhosts : Codec.text.list.orDefault.Keeps f.hosts := .orDefault hhosts nofun
  refine Record.reopens (by decide) every_iff ?_
  refine .keepsList (fun error _ => .text error) ?_
  refine .keeps hhosts rfl ?_
  refine .plain f.total.reopens ?_
  refine .optionalMap (fun p _ => p.2.reopens) ?_
  refine .last ?_
  refine .optionalMap (fun p _ => p.2.reopens) ?_
  refine .keeps (.bool _) rfl ?_
  exact .nil

theorem yields_isDecoded : codec.Yields (Every Leaf.IsDecoded) := by
  have hbyHost := MetricBundle.yields_isDecoded.every_keyMap.orDefault every_empty
  have hbyDisk := DriveMetrics.yields_isDecoded.every_keyMap.orDefault every_empty
  refine Record.yields (every_iff.2 ⟨MetricBundle.every_isDecoded_default, every_empty, every_empty⟩) ?_
  simp only [record, List.forall_mem_cons]
  exact ⟨Field.preserves_of_set fun _ _ h => h, Field.preserves_of_set fun _ _ h => h,
    Field.preserves MetricBundle.yields_isDecoded fun _ _ hv hf => every_iff.2 ⟨hv, (every_iff.1 hf).2⟩,
    Field.preserves hbyHost fun _ _ hv hf => every_iff.2 ⟨(every_iff.1 hf).1, hv, (every_iff.1 hf).2.2⟩,
    Field.preserves hbyDisk fun _ _ hv hf => every_iff.2 ⟨(every_iff.1 hf).1, (every_iff.1 hf).2.1, hv⟩,
    Field.preserves_of_set fun _ _ h => h, List.forall_mem_nil _⟩

/-- The calls are no deeper than the reader allows. -/
structure IsShallow (f : Frame) : Prop where
  total : ∀ r ∈ f.total.rpc, r.tree.height ≤ 63
  byHost : ∀ p ∈ f.byHost.entries, ∀ r ∈ p.2.rpc, r.tree.height ≤ 62

theorem yieldsAt_isShallow : codec.YieldsAt Json.depthLimit IsShallow := by
  have hnone : ∀ p ∈ (KeyMap.empty : KeyMap MetricBundle).entries, ∀ r ∈ p.2.rpc, r.tree.height ≤ 62 :=
    fun _ hp => absurd hp List.not_mem_nil
  have htotal := MetricBundle.yieldsAt_height 125
  have hbyHost := (MetricBundle.yieldsAt_height 124).keyMap.orDefault hnone
  have hset : ∀ f : Frame, f.IsShallow → ∀ errors hosts byDisk isFinal,
      IsShallow { f with errors, hosts, byDisk, isFinal } := fun f h _ _ _ _ => ⟨h.total, h.byHost⟩
  refine Record.yieldsAt ⟨nofun, hnone⟩ ?_
  simp only [record, List.forall_mem_cons]
  exact ⟨Field.preservesAt_of_set fun _ f h => hset f h .., Field.preservesAt_of_set fun _ f h => hset f h ..,
    Field.preservesAt htotal fun _ _ hv hf => ⟨hv, hf.byHost⟩, Field.preservesAt hbyHost fun _ _ hv hf => ⟨hf.total, hv⟩,
    Field.preservesAt_of_set fun _ f h => hset f h .., Field.preservesAt_of_set fun _ f h => hset f h ..,
    List.forall_mem_nil _⟩

theorem isShallow_of_decodes {f : Frame} (h : codec.Decodes f) : f.IsShallow := by
  obtain ⟨bytes, hbytes⟩ := h
  obtain ⟨j, -, hj⟩ := Option.bind_eq_some_iff.1 hbytes
  exact yieldsAt_isShallow hj

theorem IsShallow.nesting_write_le {f : Frame} (h : f.IsShallow) : (codec.write f).nesting ≤ Json.depthLimit := by
  have htotal : (MetricBundle.codec.write f.total).nesting ≤ 126 :=
    MetricBundle.nesting_write_le (n := 120) h.total (by decide)
  have hbyHost : (MetricBundle.codec.keyMap.orDefault.write f.byHost).nesting ≤ 126 :=
    Codec.nesting_keyMap_le fun p hp => MetricBundle.nesting_write_le (n := 119) (h.byHost p hp) (by decide)
  refine Record.nesting_write_le (n := 126) ?_
  simp only [record, List.forall_mem_cons]
  exact ⟨fun _ => Codec.NestsWithin.optionalList .text _, fun _ => Codec.NestsWithin.text.list.orDefault _,
    fun _ => htotal, fun _ => hbyHost, fun _ => Codec.NestsWithin.optionalMap DriveMetrics.nestsWithin _,
    fun _ => Codec.NestsWithin.bool _, List.forall_mem_nil _⟩

end Frame

end

end ClusterMetrics
