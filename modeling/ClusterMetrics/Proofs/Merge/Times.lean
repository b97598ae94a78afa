import ClusterMetrics.Proofs.Json.LegibleFrames
import ClusterMetrics.Proofs.Merge.Peers
import ClusterMetrics.Proofs.MergedFrames

/-! # Where the times of merged frames come from

A merge makes no times, it only chooses among them: what holds of all times of both sides holds of those of the result
(`Merge.Inherits`), if it holds of the time that stands for never. Nor does it make trees of calls deeper than the deeper
of both sides. So it is with any number of frames (`Frame.every_mergeAll?`, `Frame.isShallow_mergeAll?`). -/

namespace ClusterMetrics

/-- What is asked of times only, and holds for never. -/
structure AsksOfTimes (P : Leaf → Prop) : Prop where
  zero : P (.time .zero)
  double : ∀ x, P (.double x)

/-- What holds of both sides of a merge holds of the result, and it holds of the empty value. -/
structure Merge.Inherits (α : Type) [Merge α] [HasLeaves α] (P : Leaf → Prop) : Prop where
  empty : Every P (Merge.empty : α)
  of_merge? : ∀ ⦃a b c : α⦄, Merge.merge? a b = some c → Every P a → Every P b → Every P c

variable {P : Leaf → Prop}

theorem AsksOfTimes.every_zero (hP : AsksOfTimes P) : Every P Timestamp.zero := every_time.2 hP.zero

theorem AsksOfTimes.every_doubles (hP : AsksOfTimes P) (xs : List Binary64) : Every P xs :=
  every_list.2 fun x _ => every_double.2 (hP.double x)

/-! ### Choices, maps and slots -/

section
variable {α : Type} [HasLeaves α]

theorem every_ite {a b : α} {p : Prop} [Decidable p] (ha : Every P a) (hb : Every P b) :
    Every P (if p then a else b) := by
  split
  · exact ha
  · exact hb

theorem every_latest {s t : Timestamp} (hs : Every P s) (ht : Every P t) : Every P (s.latest t) := every_ite ht hs

theorem every_overwrite {m n : KeyMap α} (hm : Every P m) (hn : Every P n) : Every P (m.overwrite n) :=
  every_keyMap.2 (KeyMap.forall_overwrite (every_keyMap.1 hm) (every_keyMap.1 hn))

omit [HasLeaves α] in
theorem Merge.forall_slot? [Merge α] {Q : α → Prop} (h : ∀ a b c : α, merge? a b = some c → Q a → Q b → Q c)
    (hempty : ∀ b, Q b → Q empty) {slot other result : Option α} (hslot : slot? slot other = some result)
    (hs : ∀ a ∈ slot, Q a) (ho : ∀ b ∈ other, Q b) : ∀ c ∈ result, Q c := by
  cases other with
  | none => cases hslot; exact hs
  | some b =>
    obtain ⟨c, hc, rfl⟩ := Option.map_eq_some_iff.1 hslot
    have hb := ho b rfl
    rintro _ ⟨⟩
    refine h _ b c hc ?_ hb
    cases slot with
    | none => exact hempty b hb
    | some a => exact hs a rfl

theorem Merge.Inherits.slot? [Merge α] (h : Inherits α P) {slot other result : Option α}
    (hslot : Merge.slot? slot other = some result) (hs : Every P slot) (ho : Every P other) : Every P result :=
  every_option.2 (forall_slot? (fun _ _ _ hc ha hb => h.of_merge? hc ha hb) (fun _ _ => h.empty) hslot
    (every_option.1 hs) (every_option.1 ho))

/-- A record whose only leaf is the time when it was collected. -/
theorem Merge.Inherits.of_collected [Merge α] {collected : α → Timestamp} (hP : AsksOfTimes P)
    (hleaves : ∀ a : α, Every P a ↔ Every P (collected a)) (hempty : collected Merge.empty = .zero)
    (htracks : Tracks Merge.merge? (.total collected .latest)) : Inherits α P where
  empty := (hleaves _).2 (hempty ▸ hP.every_zero)
  of_merge? := by
    intro a b c h ha hb
    have hcollected : (collected a).latest (collected b) = collected c := Option.some.inj (htracks h)
    exact (hleaves c).2 (hcollected ▸ every_latest ((hleaves a).1 ha) ((hleaves b).1 hb))

end

/-! ### Records -/

section
variable (hP : AsksOfTimes P)
include hP

theorem DriveMetrics.inherits : Merge.Inherits DriveMetrics P :=
  .of_collected hP (fun _ => every_iff) rfl (splits.tracks _ (Set.mem_insert _ _))

theorem OsMetrics.inherits : Merge.Inherits OsMetrics P :=
  .of_collected hP (fun _ => every_iff) rfl (splits.tracks _ (Set.mem_insert _ _))

theorem NetworkMetrics.inherits : Merge.Inherits NetworkMetrics P :=
  .of_collected hP (fun _ => every_iff) rfl (splits.tracks _ (Set.mem_insert _ _))

theorem MemoryMetrics.inherits : Merge.Inherits MemoryMetrics P :=
  .of_collected hP (fun _ => every_iff) rfl (splits.tracks _ (Set.mem_insert _ _))

theorem ScannerMetrics.inherits : Merge.Inherits ScannerMetrics P where
  empty := every_iff.2 ⟨hP.every_zero, hP.every_zero, every_nil, every_empty⟩
  of_merge? := by
    intro a b c h ha hb
    obtain ⟨hacollected, hastarted, hacompleted, haperBucket⟩ := every_iff.1 ha
    obtain ⟨hbcollected, hbstarted, hbcompleted, hbperBucket⟩ := every_iff.1 hb
    obtain ⟨⟨hstarted, hcompleted⟩, -⟩ := (inTurn a b).of_eq_some h
    obtain ⟨hcollected, -, -, hperBucket, -⟩ := tracks_parts
    have hcollected : a.collected.latest b.collected = c.collected := Option.some.inj (hcollected h)
    have hperBucket : mergePerBucket a.perBucket b.perBucket = c.perBucket := Option.some.inj (hperBucket h)
    exact every_iff.2 ⟨hcollected ▸ every_latest hacollected hbcollected, hstarted ▸ every_ite hbstarted hastarted,
      hcompleted ▸ every_ite hbcompleted (every_ite hbcompleted hacompleted),
      hperBucket ▸ every_overwrite hbperBucket haperBucket⟩

theorem BatchJobMetrics.inherits : Merge.Inherits BatchJobMetrics P where
  empty := every_iff.2 ⟨hP.every_zero, every_empty⟩
  of_merge? := by
    intro a b c h ha hb
    obtain ⟨hacollected, hajobs⟩ := every_iff.1 ha
    obtain ⟨hbcollected, hbjobs⟩ := every_iff.1 hb
    obtain rfl := Option.some.inj h
    exact every_ite ha (every_iff.2 ⟨every_latest hacollected hbcollected, every_overwrite hajobs hbjobs⟩)

theorem SiteResyncMetrics.inherits : Merge.Inherits SiteResyncMetrics P where
  empty := every_iff.2 ⟨hP.every_zero, hP.every_zero, hP.every_zero⟩
  of_merge? := by
    intro a b c h ha hb
    obtain rfl := Option.some.inj h
    exact every_ite hb ha

theorem CpuMetrics.inherits : Merge.Inherits CpuMetrics P where
  empty := every_iff.2 ⟨hP.every_zero, every_none, every_none⟩
  of_merge? := by
    intro a b c h ha hb
    have hcollected : a.collected.latest b.collected = c.collected :=
      Option.some.inj (splits.tracks _ (Set.mem_insert _ _) h)
    refine every_iff.2 ⟨hcollected ▸ every_latest (every_iff.1 ha).1 (every_iff.1 hb).1, ?_, ?_⟩
    · exact every_option.2 fun t _ => hP.every_doubles t.seconds
    · exact every_option.2 fun l _ => hP.every_doubles [l.load1, l.load5, l.load15]

theorem RuntimeMetrics.inherits : Merge.Inherits RuntimeMetrics P := by
  have hall : ∀ m : RuntimeMetrics, Every P m := fun m => every_iff.2
    ⟨every_keyMap.2 fun p _ => every_double.2 (hP.double p.2), every_keyMap.2 fun p _ => hP.every_doubles p.2.boundaries⟩
  exact ⟨hall _, fun _ _ c _ _ _ => hall c⟩

/-! ### Calls -/

theorem RpcCounters.inherits : Merge.Inherits RpcCounters P where
  empty := every_iff.2 ⟨hP.every_zero, hP.every_zero, every_double.2 (hP.double _), every_double.2 (hP.double _),
    hP.every_zero⟩
  of_merge? := by
    intro a b c h ha hb
    obtain ⟨hacollected, halastPong, -, -, halastConnect⟩ := every_iff.1 ha
    obtain ⟨hbcollected, hblastPong, -, -, hblastConnect⟩ := every_iff.1 hb
    obtain ⟨hcollected, hlastConnect, hlastPong⟩ := tracks_times
    have hcollected : a.collected.latest b.collected = c.collected := Option.some.inj (hcollected h)
    have hlastConnect : a.lastConnect.latest b.lastConnect = c.lastConnect := Option.some.inj (hlastConnect h)
    have hlastPong : a.lastPong.latest b.lastPong = c.lastPong := Option.some.inj (hlastPong h)
    exact every_iff.2 ⟨hcollected ▸ every_latest hacollected hbcollected, hlastPong ▸ every_latest halastPong hblastPong,
      every_double.2 (hP.double _), every_double.2 (hP.double _),
      hlastConnect ▸ every_latest halastConnect hblastConnect⟩

namespace RpcTree

theorem Within.empty {t : RpcTree} {n : Nat} (h : t.Within P n) : RpcTree.empty.Within P n := by
  obtain ⟨k, rfl⟩ := h.exists_eq_succ
  exact within_node_iff.2 ⟨(RpcCounters.inherits hP).empty, nofun, nofun⟩

mutual

theorem Within.of_merge? {a c : RpcTree} {n : Nat} :
    ∀ {b : RpcTree}, merge? a b = some c → a.Within P n → b.Within P n → c.Within P n
  | node own ds cs, h, ha, hb => by
    obtain ⟨n, rfl⟩ := hb.exists_eq_succ
    obtain ⟨aown, ads, acs⟩ := a
    obtain ⟨haown, hads, hacs⟩ := within_node_iff.1 ha
    obtain ⟨hbown, hbds, hbcs⟩ := within_node_iff.1 hb
    simp only [merge?, Option.bind_eq_bind, Option.bind_eq_some_iff] at h
    obtain ⟨o, ho, ds', hds, cs', hcs, h⟩ := h
    cases h
    exact within_node_iff.2 ⟨(RpcCounters.inherits hP).of_merge? ho haown hbown, within_mergePeers? hds hads hbds,
      within_mergePeers? hcs hacs hbcs⟩

theorem within_mergePeers? {ps rs : List (String × RpcTree)} {n : Nat} :
    ∀ {qs : List (String × RpcTree)}, mergePeers? ps qs = some rs → (∀ p ∈ ps, p.2.Within P n) →
      (∀ q ∈ qs, q.2.Within P n) → ∀ r ∈ rs, r.2.Within P n
  | [], h, hp, _ => by
    rw [mergePeers?] at h
    cases h
    exact hp
  | (key, t) :: rest, h, hp, hq => by
    simp only [mergePeers?, Option.bind_eq_bind, Option.bind_eq_some_iff] at h
    obtain ⟨ps', ha, h⟩ := h
    obtain ⟨ht, hrest⟩ := List.forall_mem_cons.1 hq
    refine within_mergePeers? h ?_ hrest
    refine Entries.forall_of_alter? ha hp fun old v ho hv => Within.of_merge? hv ?_ ht
    cases old with
    | none => exact ht.empty hP
    | some x => exact ho x rfl

end

end RpcTree

theorem RpcMetrics.inherits : Merge.Inherits RpcMetrics P where
  empty := RpcTree.forall_mem_leaves_node_iff.2 ⟨(RpcCounters.inherits hP).empty, nofun, nofun⟩
  of_merge? := by
    intro a b c h ha hb
    have hn := Nat.le_max_left a.tree.height b.tree.height
    have hn' := Nat.le_max_right a.tree.height b.tree.height
    exact (RpcTree.Within.of_merge? hP (tree_merge? h) ⟨hn, ha⟩ ⟨hn', hb⟩).forall_mem_leaves

/-! ### Bundles and frames -/

theorem MetricBundle.inherits : Merge.Inherits MetricBundle P where
  empty := every_iff.2 ⟨every_none, every_none, every_none, every_none, every_none, every_none, every_none, every_none,
    every_none, every_none⟩
  of_merge? := by
    intro a b c h ha hb
    obtain ⟨hscanner, hdisk, hos, hbatchJobs, hsiteResync, hnetwork, hmemory, hcpu, hrpc, hruntime⟩ := tracks_slots
    obtain ⟨hascanner, hadisk, haos, habatchJobs, hasiteResync, hanetwork, hamemory, hacpu, harpc, haruntime⟩ :=
      every_iff.1 ha
    obtain ⟨hbscanner, hbdisk, hbos, hbbatchJobs, hbsiteResync, hbnetwork, hbmemory, hbcpu, hbrpc, hbruntime⟩ :=
      every_iff.1 hb
    exact every_iff.2 ⟨(ScannerMetrics.inherits hP).slot? (hscanner h) hascanner hbscanner,
      (DriveMetrics.inherits hP).slot? (hdisk h) hadisk hbdisk,
      (OsMetrics.inherits hP).slot? (hos h) haos hbos,
      (BatchJobMetrics.inherits hP).slot? (hbatchJobs h) habatchJobs hbbatchJobs,
      (SiteResyncMetrics.inherits hP).slot? (hsiteResync h) hasiteResync hbsiteResync,
      (NetworkMetrics.inherits hP).slot? (hnetwork h) hanetwork hbnetwork,
      (MemoryMetrics.inherits hP).slot? (hmemory h) hamemory hbmemory,
      (CpuMetrics.inherits hP).slot? (hcpu h) hacpu hbcpu,
      (RpcMetrics.inherits hP).slot? (hrpc h) harpc hbrpc,
      (RuntimeMetrics.inherits hP).slot? (hruntime h) haruntime hbruntime⟩

theorem Frame.inherits : Merge.Inherits Frame P where
  empty := every_iff.2 ⟨(MetricBundle.inherits hP).empty, every_empty, every_empty⟩
  of_merge? := by
    intro a b c h ha hb
    obtain ⟨hatotal, habyHost, habyDisk⟩ := every_iff.1 ha
    obtain ⟨hbtotal, hbbyHost, hbbyDisk⟩ := every_iff.1 hb
    obtain ⟨total, htotal, hc⟩ := Option.bind_eq_some_iff.1 h
    cases hc
    exact every_iff.2 ⟨(MetricBundle.inherits hP).of_merge? htotal hatotal hbtotal, every_overwrite habyHost hbbyHost,
      every_overwrite habyDisk hbbyDisk⟩

theorem Frame.every_mergeAll? {fs : List Frame} {v : Frame} (h : mergeAll? fs = some v) (hfs : ∀ f ∈ fs, Every P f) :
    Every P v :=
  forall_of_foldlM h (fun f hf _ _ hst hs => (inherits hP).of_merge? hst hs (hfs f hf)) (inherits hP).empty

end

/-! ### Depth -/

theorem RpcMetrics.height_merge?_le {a b c : RpcMetrics} {n : Nat} (h : a.merge? b = some c) (ha : a.tree.height ≤ n)
    (hb : b.tree.height ≤ n) : c.tree.height ≤ n := by
  have hP : AsksOfTimes fun _ => True := ⟨trivial, fun _ => trivial⟩
  exact (RpcTree.Within.of_merge? hP (tree_merge? h) ⟨ha, fun _ _ => trivial⟩ ⟨hb, fun _ _ => trivial⟩).height_le

theorem MetricBundle.height_merge?_le {a b c : MetricBundle} {n : Nat} (h : a.merge? b = some c)
    (ha : ∀ r ∈ a.rpc, r.tree.height ≤ n) (hb : ∀ r ∈ b.rpc, r.tree.height ≤ n) : ∀ r ∈ c.rpc, r.tree.height ≤ n := by
  have hrpc : Merge.slot? a.rpc b.rpc = some c.rpc := splits.tracks (.field rpc Merge.slot?) (by simp [parts]) h
  refine Merge.forall_slot? (fun _ _ _ hc ha hb => RpcMetrics.height_merge?_le hc ha hb) (fun r hr => ?_) hrpc ha hb
  obtain ⟨k, rfl⟩ := RpcMetrics.exists_eq_succ_of_height_le hr
  exact Nat.succ_le_succ (Nat.zero_le k)

namespace Frame

theorem IsShallow.of_merge? {a b c : Frame} (h : a.merge? b = some c) (ha : a.IsShallow) (hb : b.IsShallow) :
    c.IsShallow := by
  obtain ⟨total, htotal, hc⟩ := Option.bind_eq_some_iff.1 h
  cases hc
  have hbyHost :=
    KeyMap.forall_overwrite (P := fun m : MetricBundle => ∀ r ∈ m.rpc, r.tree.height ≤ 62) ha.byHost hb.byHost
  exact ⟨MetricBundle.height_merge?_le htotal ha.total hb.total, hbyHost⟩

theorem isShallow_mergeAll? {fs : List Frame} {v : Frame} (h : mergeAll? fs = some v) (hfs : ∀ f ∈ fs, f.IsShallow) :
    v.IsShallow :=
  forall_of_foldlM h (fun f hf _ _ hst hs => hs.of_merge? hst (hfs f hf)) ⟨nofun, fun _ hp => absurd hp List.not_mem_nil⟩

end Frame

end ClusterMetrics
