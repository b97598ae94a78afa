import ClusterMetrics.Proofs.Json.ReadValues
import ClusterMetrics.Proofs.Merge.Grouping
import ClusterMetrics.Proofs.Merge.Peers

/-! # Merging with the empty value

What becomes of a value that absorbs the empty one (`Accumulator.steady_iff`), and of the empty one that absorbs a
value: it shows that value, but for what rules of merging leave out (`shown`). -/

namespace ClusterMetrics
open CheckedAdd (add?)

/-! ### Counters -/

namespace CheckedAdd

@[simp] theorem add?_zero_unsigned (a : UInt64) : add? a 0 = some a := by
  show (if a.toNat + 0 < 0x10000000000000000 then some (a + 0) else none) = some a
  rw [if_pos (show a.toNat + 0 < _ from a.toNat_lt), UInt64.add_zero]

@[simp] theorem zero_add?_unsigned (a : UInt64) : add? 0 a = some a := by
  show (if 0 + a.toNat < 0x10000000000000000 then some (0 + a) else none) = some a
  rw [Nat.zero_add, if_pos (show a.toNat < _ from a.toNat_lt), UInt64.zero_add]

@[simp] theorem add?_zero_signed (a : Int64) : add? a 0 = some a := by
  show (if -0x8000000000000000 ≤ a.toInt + 0 ∧ a.toInt + 0 < 0x8000000000000000 then some (a + 0) else none) = some a
  rw [Int.add_zero, if_pos ⟨a.le_toInt, a.toInt_lt⟩, Int64.add_zero]

@[simp] theorem zero_add?_signed (a : Int64) : add? 0 a = some a := by
  show (if -0x8000000000000000 ≤ 0 + a.toInt ∧ 0 + a.toInt < 0x8000000000000000 then some (0 + a) else none) = some a
  rw [Int.zero_add, if_pos ⟨a.le_toInt, a.toInt_lt⟩, Int64.zero_add]

end CheckedAdd

/-! ### Maps -/

namespace Entries
variable {α β : Type} {f : Option α → β → Option α} {es : List (String × α)} {other : List (String × β)}

theorem alter?_of_forall_lt {key : String} {g : Option α → Option α} (h : ∀ p ∈ es, p.1 < key) :
    alter? key g es = (g none).map fun v => es ++ [(key, v)] := by
  induction es with
  | nil => rfl
  | cons p es ih =>
    obtain ⟨k, v⟩ := p
    obtain ⟨hk, hes⟩ := List.forall_mem_cons.1 h
    rw [alter?, if_neg (String.lt_asymm hk), if_pos hk, ih hes, Option.map_map]
    rfl

/-- Nothing is there yet that the entries could be combined with. -/
theorem combine?_nil_left {g : β → α} (ho : KeySorted other) (h : ∀ p ∈ other, f none p.2 = some (g p.2)) :
    combine? f [] other = some (other.map fun p => (p.1, g p.2)) := by
  have hfrom : ∀ es : List (String × α), (∀ p ∈ es, ∀ q ∈ other, p.1 < q.1) →
      combine? f es other = some (es ++ other.map fun p => (p.1, g p.2)) := by
    induction other with
    | nil => simp [combine?]
    | cons q other ih =>
      obtain ⟨hq, ho⟩ := List.pairwise_cons.1 ho
      obtain ⟨hg, h⟩ := List.forall_mem_cons.1 h
      intro es hes
      have hlast : ∀ p ∈ es ++ [(q.1, g q.2)], ∀ r ∈ other, p.1 < r.1 := by
        intro p hp r hr
        rcases List.mem_append.1 hp with hp | hp
        · exact hes p hp r (List.mem_cons_of_mem _ hr)
        · cases List.mem_singleton.1 hp
          exact hq r hr
      rw [combine?, List.foldlM_cons, alter?_of_forall_lt fun p hp => hes p hp q List.mem_cons_self, hg]
      refine (ih ho h _ hlast).trans ?_
      simp
  exact hfrom [] fun p hp => absurd hp List.not_mem_nil

end Entries

namespace KeyMap
variable {α : Type} {f : Option α → α → Option α} {m : KeyMap α}

theorem empty_combine? {g : α → α} (h : ∀ p ∈ m.entries, f none p.2 = some (g p.2)) :
    KeyMap.empty.combine? f m = some (m.mapValues g) := by
  have hmap := map_entries_combine? f .empty m
  rw [show (KeyMap.empty : KeyMap α).entries = [] from rfl, Entries.combine?_nil_left m.sorted h] at hmap
  obtain ⟨r, hr, hentries⟩ := Option.map_eq_some_iff.1 hmap
  rw [hr, show r = m.mapValues g from ext hentries]

theorem mapValues_id (m : KeyMap α) : m.mapValues (fun a => a) = m := by
  refine ext ?_
  simp [mapValues]

theorem empty_combine?_self (h : ∀ a, f none a = some a) : KeyMap.empty.combine? f m = some m := by
  rw [empty_combine? (g := fun a => a) fun p _ => h p.2, mapValues_id]

end KeyMap

namespace Merge
variable {α : Type}

@[simp] theorem byKey?_empty [Merge α] (m : KeyMap α) : byKey? m .empty = some m := rfl

@[simp] theorem sumByKey?_empty [CheckedAdd α] (m : KeyMap α) : sumByKey? m .empty = some m := rfl

@[simp] theorem slot?_none [Merge α] (slot : Option α) : slot? slot none = some slot := rfl

@[simp] theorem empty_sumByKey? (m : KeyMap UInt64) : sumByKey? .empty m = some m :=
  KeyMap.empty_combine?_self CheckedAdd.zero_add?_unsigned

theorem empty_byKey? [Merge α] (h : ∀ a : α, merge? empty a = some a) (m : KeyMap α) : byKey? .empty m = some m :=
  KeyMap.empty_combine?_self h

theorem none_slot? [Merge α] {g : α → α} (h : ∀ a, merge? empty a = some (g a)) (o : Option α) :
    slot? none o = some (o.map g) := by
  cases o with
  | none => rfl
  | some a => exact congrArg (Option.map some) (h a)

theorem none_slot?_self [Merge α] (h : ∀ a : α, merge? empty a = some a) (o : Option α) : slot? none o = some o := by
  rw [none_slot? (g := id) h, Option.map_id_fun, id]

end Merge

/-! ### Records that stay as they are, on either side -/

theorem OperationTotals.merge?_empty (a : OperationTotals) : a.merge? {} = some a := by
  simp [merge?]

theorem OperationTotals.empty_merge? (a : OperationTotals) : merge? {} a = some a := by
  simp [merge?]

theorem LastMinute.merge?_empty (a : LastMinute) : a.merge? {} = some a := rfl

theorem LastMinute.empty_merge? (a : LastMinute) : merge? {} a = some a := by
  simp [merge?, Merge.empty_byKey? OperationTotals.empty_merge?]

theorem BlockDeviceCounters.merge?_empty (a : BlockDeviceCounters) : a.merge? {} = some a := by
  simp [merge?]

theorem BlockDeviceCounters.empty_merge? (a : BlockDeviceCounters) : merge? {} a = some a := by
  simp [merge?]

theorem DriveMetrics.merge?_empty (a : DriveMetrics) : a.merge? {} = some a := by
  simp [merge?, LastMinute.merge?_empty, BlockDeviceCounters.merge?_empty]

theorem DriveMetrics.empty_merge? (a : DriveMetrics) : merge? {} a = some a := by
  simp [merge?, LastMinute.empty_merge?, BlockDeviceCounters.empty_merge?]

theorem OsMetrics.merge?_empty (a : OsMetrics) : a.merge? {} = some a := by
  simp [merge?, LastMinute.merge?_empty]

theorem OsMetrics.empty_merge? (a : OsMetrics) : merge? {} a = some a := by
  simp [merge?, LastMinute.empty_merge?]

theorem InterfaceCounters.merge?_empty (a : InterfaceCounters) : a.merge? {} = some a := by
  simp [merge?]

theorem InterfaceCounters.empty_merge? (a : InterfaceCounters) : merge? {} a = some a := by
  simp [merge?]

theorem NetworkMetrics.merge?_empty (a : NetworkMetrics) : a.merge? {} = some a := by
  simp [merge?, InterfaceCounters.merge?_empty]

theorem NetworkMetrics.empty_merge? (a : NetworkMetrics) : merge? {} a = some a := by
  simp [merge?, InterfaceCounters.empty_merge?]

theorem MemoryUse.merge?_empty (a : MemoryUse) : a.merge? {} = some a := by
  simp [merge?]

theorem MemoryUse.empty_merge? (a : MemoryUse) : merge? {} a = some a := by
  simp [merge?]

theorem MemoryMetrics.merge?_empty (a : MemoryMetrics) : a.merge? {} = some a := by
  simp [merge?, MemoryUse.merge?_empty]

theorem MemoryMetrics.empty_merge? (a : MemoryMetrics) : merge? {} a = some a := by
  simp [merge?, MemoryUse.empty_merge?]

theorem Histogram.empty_merge? (a : Histogram) : merge? {} a = some a := rfl

/-! ### The scanner, jobs and resync -/

namespace ScannerMetrics

/-- Active paths are sorted, and the start of a cycle counts from the first cycle on. -/
def shown (s : ScannerMetrics) : ScannerMetrics :=
  { s with
    started := if s.cycle = 0 then .zero else s.started
    active := Merge.sortTexts s.active }

theorem merge?_empty (a : ScannerMetrics) : a.merge? {} = some a := by
  have hcycle : ¬ a.cycle < 0 := UInt64.not_lt_zero
  have hmax : ∀ n : UInt64, max n 0 = n := by
    intro n
    show (if n ≤ 0 then 0 else n) = n
    split
    next h => exact (UInt64.le_antisymm h UInt64.zero_le).symm
    next => rfl
  simp [merge?, hcycle, hmax, mergeCompleted, mergePerBucket, mergeActive]

theorem empty_merge? (a : ScannerMetrics) : merge? {} a = some a.shown := by
  have hmax : ∀ n : UInt64, max 0 n = n := fun n => if_pos (UInt64.zero_le (a := n))
  have hcycle : (0 : UInt64) < a.cycle ↔ ¬ a.cycle = 0 := UInt64.pos_iff_ne_zero
  have hcompleted : mergeCompleted {} a = a.completed := by
    simp only [mergeCompleted]
    cases a.completed with
    | nil => simp
    | cons t ts => split <;> simp
  have hactive : mergeActive [] a.active = Merge.sortTexts a.active := by
    cases a.active with
    | nil => simp [mergeActive, Merge.sortTexts]
    | cons t ts => rfl
  simp [merge?, shown, hmax, hcycle, hcompleted, hactive, mergePerBucket, Merge.empty_byKey? OperationTotals.empty_merge?]

end ScannerMetrics

namespace BatchJobMetrics

/-- A report without jobs is not shown at all. -/
def shown (m : BatchJobMetrics) : BatchJobMetrics := if m.jobs.isEmpty then {} else m

theorem merge_empty (a : BatchJobMetrics) : a.merge {} = a := merge_of_isEmpty rfl

theorem empty_merge (a : BatchJobMetrics) : merge {} a = a.shown := by
  unfold merge shown
  split
  · rfl
  · simp

end BatchJobMetrics

theorem SiteResyncMetrics.empty_merge (a : SiteResyncMetrics) : merge {} a = a := merge_of_zero rfl

/-- What has never been collected gives way to the empty report. -/
theorem SiteResyncMetrics.merge_empty_eq_iff (a : SiteResyncMetrics) :
    a.merge {} = a ↔ (a.collected = .zero → a = {}) := by
  by_cases h : a.collected = .zero
  · rw [merge_of_zero h]
    exact ⟨fun he _ => he.symm, fun he => (he h).symm⟩
  · rw [merge_of_not_lt h (by cases a.collected <;> exact Bool.false_ne_true)]
    exact iff_of_true rfl fun h0 => absurd h0 h

/-! ### Processors and processes -/

open NumEq (IsNumeric)

/-- Equality, of doubles as numbers. -/
def NumEq.Same {α : Type} [NumEq α] (a b : α) : Prop := numEq a b = true

open NumEq (Same)

theorem CpuTimes.merge_empty {a : CpuTimes} (h : IsNumeric a) : Same (a.merge {}) a := by
  simp only [IsNumeric, NumEq.numEq, numEq, Bool.and_eq_true, beq_self_eq_true, true_and] at h
  simp [Same, NumEq.numEq, numEq, merge, Binary64.numEq_add_zero, h]

theorem CpuTimes.empty_merge {a : CpuTimes} (h : IsNumeric a) : Same (merge {} a) a := by
  simp only [IsNumeric, NumEq.numEq, numEq, Bool.and_eq_true, beq_self_eq_true, true_and] at h
  simp [Same, NumEq.numEq, numEq, merge, Binary64.numEq_zero_add, h]

theorem LoadAverages.merge_empty {a : LoadAverages} (h : IsNumeric a) : Same (a.merge {}) a := by
  simp only [IsNumeric, NumEq.numEq, numEq, Bool.and_eq_true] at h
  simp [Same, NumEq.numEq, numEq, merge, Binary64.numEq_add_zero, h]

theorem LoadAverages.empty_merge {a : LoadAverages} (h : IsNumeric a) : Same (merge {} a) a := by
  simp only [IsNumeric, NumEq.numEq, numEq, Bool.and_eq_true] at h
  simp [Same, NumEq.numEq, numEq, merge, Binary64.numEq_zero_add, h]

namespace Merge
variable {α : Type} [Merge α] [NumEq α]

/-- A slot that was empty shows what came into it. -/
theorem none_slot?_same {g : α → α} (h : ∀ a : α, IsNumeric a → ∃ r, merge? empty a = some r ∧ Same r (g a))
    {o : Option α} (ho : IsNumeric o) : ∃ r, slot? none o = some r ∧ Same r (o.map g) := by
  cases o with
  | none => exact ⟨none, rfl, rfl⟩
  | some a =>
    obtain ⟨r, hr, hsame⟩ := h a (NumEq.isNumeric_option.1 ho a rfl)
    exact ⟨some r, congrArg (Option.map some) hr, hsame⟩

end Merge

theorem CpuMetrics.merge?_empty (a : CpuMetrics) : a.merge? {} = some a := by
  simp [merge?]

theorem CpuMetrics.empty_merge? {a : CpuMetrics} (h : IsNumeric a) : ∃ r, merge? {} a = some r ∧ Same r a := by
  obtain ⟨htimes, hload⟩ := isNumeric_iff.1 h
  obtain ⟨times, ht, htimes⟩ := Merge.none_slot?_same (g := id) (fun t ht => ⟨_, rfl, CpuTimes.empty_merge ht⟩) htimes
  obtain ⟨load, hl, hload⟩ := Merge.none_slot?_same (g := id) (fun l hl => ⟨_, rfl, LoadAverages.empty_merge hl⟩) hload
  simp only [Option.map_id_fun, id, Same] at htimes hload
  refine ⟨{ collected := a.collected, times, load, count := a.count }, ?_, ?_⟩
  · simp [merge?, ht, hl]
  · simp [Same, NumEq.numEq, numEq] at *
    simp [htimes, hload]

theorem RuntimeMetrics.merge?_empty (a : RuntimeMetrics) : a.merge? {} = some a := by
  simp [merge?]

theorem NumEq.entries_map_same {α : Type} [NumEq α] {g : α → α} {es : List (String × α)}
    (h : ∀ p ∈ es, Same (g p.2) p.2) : entries (es.map fun p => (p.1, g p.2)) es = true := by
  induction es with
  | nil => rfl
  | cons p es ih =>
    obtain ⟨hp, hes⟩ := List.forall_mem_cons.1 h
    simp only [List.map_cons, entries, beq_self_eq_true, ih hes, Bool.true_and, Bool.and_true]
    exact hp

theorem RuntimeMetrics.empty_merge? {a : RuntimeMetrics} (h : IsNumeric a) : ∃ r, merge? {} a = some r ∧ Same r a := by
  obtain ⟨hdoubles, hhistograms⟩ := isNumeric_iff.1 h
  have hsum : Merge.sumByKey? .empty a.doubles = some (a.doubles.mapValues Binary64.zero.add) :=
    KeyMap.empty_combine? fun _ _ => rfl
  have hsame : NumEq.numEq (a.doubles.mapValues Binary64.zero.add) a.doubles = true := by
    refine NumEq.entries_map_same fun p hp => ?_
    exact Binary64.numEq_zero_add (NumEq.isNumeric_keyMap.1 hdoubles p hp)
  refine ⟨{ a with doubles := a.doubles.mapValues Binary64.zero.add }, ?_, ?_⟩
  · simp [merge?, hsum, Merge.empty_byKey? Histogram.empty_merge?]
  · have hhistograms : NumEq.numEq a.histograms a.histograms = true := hhistograms
    simp [Same, NumEq.numEq, numEq] at *
    simp [hsame, hhistograms]

/-! ### Calls -/

theorem Binary64.zero_numEq_of_lt {x : Binary64} (h : x.lt .zero = true) : Binary64.zero.numEq x = false := by
  cases x with
  | finite x =>
    have hlt : x.signedUnits < 0 := of_decide_eq_true h
    exact beq_eq_false_iff_ne.2 hlt.ne'
  | infinite s => rfl
  | nan => rfl

namespace RpcCounters

/-- The ping of a pong that never came is not shown, nor is a negative longest ping. -/
def shown (c : RpcCounters) : RpcCounters :=
  { c with
    lastPing := if c.lastPong = .zero then .zero else c.lastPing
    longestPing := if Binary64.zero.lt c.longestPing then c.longestPing else .zero }

theorem empty_merge? (c : RpcCounters) : merge? {} c = some c.shown := by
  have hlt : Timestamp.zero.lt c.lastPong = true ↔ ¬ c.lastPong = .zero := by
    cases c.lastPong <;> simp [Timestamp.lt]
  simp [merge?, shown, hlt]

theorem merge?_empty (c : RpcCounters) :
    c.merge? {} = some { c with longestPing := if c.longestPing.lt .zero then .zero else c.longestPing } := by
  have hlt : c.lastPong.lt .zero = false := by cases c.lastPong <;> rfl
  simp [merge?, hlt]

end RpcCounters

namespace RpcTree
variable {t : RpcTree}

mutual

def shown : RpcTree → RpcTree
  | node own ds cs => node own.shown (shownPeers ds) (shownPeers cs)

def shownPeers : List (String × RpcTree) → List (String × RpcTree)
  | [] => []
  | (key, t) :: rest => (key, t.shown) :: shownPeers rest

end

theorem shownPeers_eq (ts : List (String × RpcTree)) : shownPeers ts = ts.map fun p => (p.1, p.2.shown) := by
  induction ts with
  | nil => rw [shownPeers]; rfl
  | cons p ts ih => rw [shownPeers, ih]; rfl

theorem Sorted.shown (h : t.Sorted) : t.shown.Sorted := by
  induction h with
  | node hds hcs _ _ ihds ihcs =>
    rw [RpcTree.shown, shownPeers_eq, shownPeers_eq]
    exact .node (Entries.keySorted_map hds) (Entries.keySorted_map hcs) (List.forall_mem_map.2 ihds)
      (List.forall_mem_map.2 ihcs)

theorem empty_merge? (h : t.Sorted) : merge? empty t = some t.shown := by
  induction h with
  | @node own ds cs hds hcs _ _ ihds ihcs =>
    have hpeers : ∀ ts, KeySorted ts → (∀ p ∈ ts, merge? empty p.2 = some p.2.shown) →
        mergePeers? [] ts = some (shownPeers ts) := by
      intro ts hts ih
      rw [mergePeers?_eq, shownPeers_eq]
      exact Entries.combine?_nil_left hts ih
    have hown : empty.own.merge? own = some own.shown := RpcCounters.empty_merge? own
    have hds : mergePeers? empty.byDestination ds = some (shownPeers ds) := hpeers ds hds ihds
    have hcs : mergePeers? empty.byCaller cs = some (shownPeers cs) := hpeers cs hcs ihcs
    rw [merge?, hown, hds, hcs, RpcTree.shown]
    rfl

end RpcTree

namespace RpcMetrics

def shown (m : RpcMetrics) : RpcMetrics := ⟨m.tree.shown, m.sorted.shown⟩

theorem isNumeric_shown {m : RpcMetrics} (h : IsNumeric m) : IsNumeric m.shown := by
  have htree : ∀ t : RpcTree, t.Sorted → t.numEq t = true → t.shown.numEq t.shown = true := by
    intro t ht
    induction ht with
    | @node own ds cs _ _ _ _ ihds ihcs =>
      intro hn
      simp only [RpcTree.numEq, Bool.and_eq_true, peersNumEq_self_iff] at hn
      simp only [RpcTree.shown, RpcTree.numEq, Bool.and_eq_true, peersNumEq_self_iff, RpcTree.shownPeers_eq,
        List.forall_mem_map]
      refine ⟨⟨?_, fun p hp => ihds p hp (hn.1.2 p hp)⟩, fun p hp => ihcs p hp (hn.2 p hp)⟩
      have hzero : Binary64.zero.numEq .zero = true := rfl
      have hown := hn.1.1
      simp only [RpcCounters.numEq, Bool.and_eq_true] at hown
      simp only [RpcCounters.numEq, RpcCounters.shown, beq_self_eq_true, Bool.true_and, Bool.and_eq_true]
      constructor
      · split
        exacts [hzero, hown.1.2]
      · split
        exacts [hown.2, hzero]
  exact htree m.tree m.sorted h

theorem merge?_of_tree {a b c : RpcMetrics} (h : a.tree.merge? b.tree = some c.tree) : a.merge? b = some c := by
  rw [← map_tree_merge?] at h
  obtain ⟨r, hr, htree⟩ := Option.map_eq_some_iff.1 h
  rw [hr, ext htree]

theorem empty_merge? (m : RpcMetrics) : empty.merge? m = some m.shown := merge?_of_tree (RpcTree.empty_merge? m.sorted)

/-- A negative longest ping gives way to that of the empty report. -/
theorem merge?_empty (m : RpcMetrics) : m.merge? empty =
    some (node { m.own with longestPing := if m.own.longestPing.lt .zero then .zero else m.own.longestPing }
      m.byDestination m.byCaller) := by
  refine merge?_of_tree ?_
  have hempty : (empty : RpcMetrics).tree = .node {} [] [] := rfl
  rw [hempty, RpcTree.merge?, RpcCounters.merge?_empty, RpcTree.mergePeers?, RpcTree.mergePeers?]
  obtain ⟨⟨own, ds, cs⟩, h⟩ := m
  simp only [node, byDestination, byCaller, entries_mapValues_peers]
  rfl

theorem longestPing_of_same {a b : RpcMetrics} (h : Same a b) :
    a.own.longestPing.numEq b.own.longestPing = true := by
  obtain ⟨⟨own, ds, cs⟩, ha⟩ := a
  obtain ⟨⟨own', ds', cs'⟩, hb⟩ := b
  simp only [Same, NumEq.numEq, RpcTree.numEq, RpcCounters.numEq, Bool.and_eq_true] at h
  exact h.1.1.2

theorem same_merge?_empty_iff {m : RpcMetrics} (h : IsNumeric m) :
    (∃ r, m.merge? empty = some r ∧ Same r m) ↔ m.own.longestPing.lt .zero = false := by
  rw [merge?_empty]
  cases hlt : m.own.longestPing.lt .zero with
  | true =>
    refine iff_of_false ?_ nofun
    rintro ⟨r, hr, hsame⟩
    cases hr
    have hping : Binary64.zero.numEq m.own.longestPing = true := longestPing_of_same hsame
    rw [Binary64.zero_numEq_of_lt hlt] at hping
    cases hping
  | false =>
    refine iff_of_true ⟨m, ?_, h⟩ rfl
    exact congrArg some (node_eta m)

end RpcMetrics

/-! ### Bundles -/

namespace MetricBundle

def shown (m : MetricBundle) : MetricBundle :=
  { m with
    scanner := m.scanner.map ScannerMetrics.shown
    batchJobs := m.batchJobs.map BatchJobMetrics.shown
    rpc := m.rpc.map RpcMetrics.shown }

theorem merge?_empty (m : MetricBundle) : m.merge? {} = some m := by
  simp [merge?]

theorem empty_merge? {m : MetricBundle} (h : IsNumeric m) : ∃ r, merge? {} m = some r ∧ Same r m.shown := by
  obtain ⟨hcpu, hrpc, hruntime⟩ := isNumeric_iff.1 h
  obtain ⟨cpu, hc, hcpu⟩ := Merge.none_slot?_same (g := id) (fun _ => CpuMetrics.empty_merge?) hcpu
  obtain ⟨runtime, hr, hruntime⟩ := Merge.none_slot?_same (g := id) (fun _ => RuntimeMetrics.empty_merge?) hruntime
  have hscanner := Merge.none_slot? ScannerMetrics.empty_merge? m.scanner
  have hdisk := Merge.none_slot?_self DriveMetrics.empty_merge? m.disk
  have hos := Merge.none_slot?_self OsMetrics.empty_merge? m.os
  have hbatchJobs := Merge.none_slot? (fun a => congrArg some (BatchJobMetrics.empty_merge a)) m.batchJobs
  have hsiteResync := Merge.none_slot?_self (fun a => congrArg some (SiteResyncMetrics.empty_merge a)) m.siteResync
  have hnetwork := Merge.none_slot?_self NetworkMetrics.empty_merge? m.network
  have hmemory := Merge.none_slot?_self MemoryMetrics.empty_merge? m.memory
  have hcalls := Merge.none_slot? RpcMetrics.empty_merge? m.rpc
  refine ⟨{ m.shown with cpu, runtime }, ?_, ?_⟩
  · simp [merge?, shown, hscanner, hdisk, hos, hbatchJobs, hsiteResync, hnetwork, hmemory, hc, hcalls, hr]
  · have hrpc : IsNumeric (m.rpc.map RpcMetrics.shown) := by
      rw [NumEq.isNumeric_option] at hrpc ⊢
      rintro _ hmem
      obtain ⟨r, hr, rfl⟩ := Option.map_eq_some_iff.1 hmem
      exact RpcMetrics.isNumeric_shown (hrpc r hr)
    simp only [Option.map_id_fun, id, Same, IsNumeric] at hcpu hruntime hrpc
    simp only [Same, NumEq.numEq, numEq] at *
    simp [shown, hcpu, hrpc, hruntime]

end MetricBundle

/-! ### All types that are merged -/

/-- A type whose values absorb one another, with what the laws of the empty value come to for it. -/
structure Accumulator where
  Value : Type
  codec : Codec Value
  merge : Merge Value
  /-- Equality, of doubles as numbers. -/
  Equal : Value → Value → Prop
  /-- What the empty value becomes on absorbing a value. -/
  shown : Value → Value
  /-- Which values absorbing the empty one does not change. -/
  IsSteady : Value → Prop

namespace Accumulator

/-- A type without doubles for which both laws hold. -/
def ofExact {α : Type} [Merge α] (codec : Codec α) : Accumulator where
  Value := α
  codec := codec
  merge := inferInstance
  Equal := Eq
  shown := id
  IsSteady _ := True

/-- A type with doubles for which both laws hold. -/
def ofNumeric {α : Type} [Merge α] [NumEq α] (codec : Codec α) : Accumulator :=
  { ofExact codec with Equal := (Same : α → α → Prop) }

def scanner : Accumulator := { ofExact ScannerMetrics.codec with shown := ScannerMetrics.shown }

def batchJobs : Accumulator := { ofExact BatchJobMetrics.codec with shown := BatchJobMetrics.shown }

def siteResync : Accumulator :=
  { ofExact SiteResyncMetrics.codec with IsSteady := fun m : SiteResyncMetrics => m.collected = .zero → m = {} }

def rpc : Accumulator :=
  { ofNumeric RpcMetrics.codec with
    shown := RpcMetrics.shown
    IsSteady := fun m : RpcMetrics => m.own.longestPing.lt .zero = false }

def bundle : Accumulator := { ofNumeric MetricBundle.codec with shown := MetricBundle.shown }

def all : List Accumulator :=
  [ofExact OperationTotals.codec, ofExact BlockDeviceCounters.codec, ofExact DriveMetrics.codec,
    ofExact OsMetrics.codec, batchJobs, siteResync, ofExact InterfaceCounters.codec, ofExact NetworkMetrics.codec,
    ofExact MemoryMetrics.codec, ofNumeric CpuTimes.codec, ofNumeric LoadAverages.codec, ofNumeric CpuMetrics.codec,
    rpc, ofNumeric RuntimeMetrics.codec, scanner, bundle]

/-- The value is the same after absorbing the empty one. -/
def AbsorbsEmpty (T : Accumulator) (a : T.Value) : Prop := ∃ r, T.merge.merge? a T.merge.empty = some r ∧ T.Equal r a

theorem absorbsEmpty_ofExact {α : Type} [Merge α] (c : Codec α) (h : ∀ a : α, Merge.merge? a Merge.empty = some a)
    (a : α) : (ofExact c).AbsorbsEmpty a ↔ True := iff_of_true ⟨a, h a, rfl⟩ trivial

theorem absorbsEmpty_ofNumeric {α : Type} [Merge α] [NumEq α] (c : Codec α) (hc : c.Yields IsNumeric)
    (h : ∀ a : α, IsNumeric a → ∃ r, Merge.merge? a Merge.empty = some r ∧ Same r a) (a : α) (ha : c.Decodes a) :
    (ofNumeric c).AbsorbsEmpty a ↔ True := iff_of_true (h a (hc.of_decodes ha)) trivial

theorem absorbsEmpty_siteResync (a : SiteResyncMetrics) : siteResync.AbsorbsEmpty a ↔ siteResync.IsSteady a := by
  refine Iff.trans ?_ (SiteResyncMetrics.merge_empty_eq_iff a)
  constructor
  · rintro ⟨r, hr, rfl⟩
    exact Option.some.inj hr
  · exact fun h => ⟨a, congrArg some h, rfl⟩

/-- A value that was read is the same after absorbing the empty one, unless it is a report on a resync that was never
collected or one on calls whose longest ping is negative. -/
theorem steady_iff : ∀ T ∈ all, ∀ a, T.codec.Decodes a → (T.AbsorbsEmpty a ↔ T.IsSteady a) := by
  simp only [all, List.forall_mem_cons]
  refine ⟨fun a _ => absorbsEmpty_ofExact _ OperationTotals.merge?_empty a,
    fun a _ => absorbsEmpty_ofExact _ BlockDeviceCounters.merge?_empty a,
    fun a _ => absorbsEmpty_ofExact _ DriveMetrics.merge?_empty a,
    fun a _ => absorbsEmpty_ofExact _ OsMetrics.merge?_empty a,
    fun a _ => absorbsEmpty_ofExact BatchJobMetrics.codec (fun a => congrArg some (BatchJobMetrics.merge_empty a)) a,
    fun a _ => absorbsEmpty_siteResync a,
    fun a _ => absorbsEmpty_ofExact _ InterfaceCounters.merge?_empty a,
    fun a _ => absorbsEmpty_ofExact _ NetworkMetrics.merge?_empty a,
    fun a _ => absorbsEmpty_ofExact _ MemoryMetrics.merge?_empty a,
    absorbsEmpty_ofNumeric CpuTimes.codec CpuTimes.yields_isNumeric fun a ha => ⟨_, rfl, CpuTimes.merge_empty ha⟩,
    absorbsEmpty_ofNumeric LoadAverages.codec LoadAverages.yields_isNumeric fun a ha => ⟨_, rfl, LoadAverages.merge_empty ha⟩,
    absorbsEmpty_ofNumeric CpuMetrics.codec CpuMetrics.yields_isNumeric fun a ha => ⟨a, CpuMetrics.merge?_empty a, ha⟩,
    fun a ha => RpcMetrics.same_merge?_empty_iff (RpcMetrics.yields_isNumeric.of_decodes ha),
    absorbsEmpty_ofNumeric RuntimeMetrics.codec RuntimeMetrics.yields_isNumeric fun a ha => ⟨a, RuntimeMetrics.merge?_empty a, ha⟩,
    fun a _ => absorbsEmpty_ofExact ScannerMetrics.codec ScannerMetrics.merge?_empty a,
    absorbsEmpty_ofNumeric MetricBundle.codec MetricBundle.yields_isNumeric fun a ha => ⟨a, MetricBundle.merge?_empty a, ha⟩, nofun⟩

/-- A resync that was collected once. -/
def collected : Bytes := utf8Bytes "\x7b\"collected\":\"2024-05-05T05:05:05Z\",\"failedBuckets\":[\"b\"]\x7d"

theorem absorbsEmpty_collected : ∃ m, SiteResyncMetrics.codec.decode? collected = some m ∧ siteResync.AbsorbsEmpty m := by
  obtain ⟨m, hm, hcollected⟩ : ∃ m, SiteResyncMetrics.codec.decode? collected = some m ∧ m.collected ≠ .zero :=
    ⟨{ collected := .instant ⟨1714885505, 0⟩, failedBuckets := ["b"] }, by decide +kernel, nofun⟩
  exact ⟨m, hm, (steady_iff siteResync (by simp [all]) m ⟨collected, hm⟩).2 fun hzero => absurd hzero hcollected⟩

/-- A resync that began but was never collected. -/
def uncollected : Bytes := utf8Bytes "\x7b\"resyncStatus\":\"Ongoing\"\x7d"

theorem not_absorbsEmpty_uncollected : ∃ m, SiteResyncMetrics.codec.decode? uncollected = some m ∧
    ¬ siteResync.AbsorbsEmpty m := by
  refine ⟨{ status := "Ongoing" }, by decide +kernel, ?_⟩
  rintro ⟨r, hr, hsame⟩
  cases hr
  have hstatus : "" = "Ongoing" := congrArg SiteResyncMetrics.status hsame
  exact absurd hstatus (by decide)

end Accumulator

end ClusterMetrics
