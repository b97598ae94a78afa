import ClusterMetrics.Proofs.Merge.Grouping
import ClusterMetrics.Proofs.Merge.Peers

/-! # Trees of calls, path by path

A merged tree has the paths of both trees. At the end of each of them counters are added up, times are the later of
two, and the last ping goes with the last pong (`RpcCounters.IsJoin`); where a tree does not go so far, it counts as
having nothing there. Main statement: a pong of one report is never shown with the ping of another, however many are
merged (`RpcMetrics.joins_along_paths`). -/

namespace ClusterMetrics
open CheckedAdd (add? InSignedRange toInt_add? isSome_add?_signed inSignedRange_toInt)

/-! ### At the end of one path -/

namespace RpcCounters
variable {a b c : RpcCounters}

/-- The last pong, and the ping that it answered. -/
def pong (c : RpcCounters) : Timestamp × Binary64 := (c.lastPong, c.lastPing)

/-- The counters `c` are those of `a` and of `b` together, the longest ping apart. -/
structure IsJoin (a b c : RpcCounters) : Prop where
  counters : ∀ f ∈ counters, (f c).toInt = (f a).toInt + (f b).toInt
  collected : c.collected = a.collected.latest b.collected
  lastConnect : c.lastConnect = a.lastConnect.latest b.lastConnect
  lastPong : c.lastPong = a.lastPong.latest b.lastPong
  lastPing : c.lastPing = if a.lastPong.lt b.lastPong then b.lastPing else a.lastPing

theorem isJoin_merge? (h : a.merge? b = some c) : IsJoin a b c where
  counters f hf := toInt_add? (splits.tracks _ (.inr ⟨f, hf, rfl⟩) h)
  collected := (Option.some.inj (tracks_times.1 h)).symm
  lastConnect := (Option.some.inj (tracks_times.2.1 h)).symm
  lastPong := (Option.some.inj (tracks_times.2.2 h)).symm
  lastPing := ((inTurn a b).of_eq_some h).1

theorem zero_of_mem_counters {f : RpcCounters → Int64} (hf : f ∈ counters) : f {} = 0 := by
  fin_cases hf <;> rfl

theorem isJoin_nothing (a : RpcCounters) : IsJoin a {} a where
  counters f hf := by rw [zero_of_mem_counters hf, Int64.toInt_zero, Int.add_zero]
  collected := (Timestamp.latest_zero _).symm
  lastConnect := (Timestamp.latest_zero _).symm
  lastPong := (Timestamp.latest_zero _).symm
  lastPing := by cases h : a.lastPong <;> rfl

theorem IsJoin.pong_eq (h : IsJoin a b c) : c.pong = a.pong ∨ c.pong = b.pong := by
  rw [pong, h.lastPong, h.lastPing, Timestamp.latest]
  split
  · exact .inr rfl
  · exact .inl rfl

end RpcCounters

/-! ### Along all paths -/

namespace RpcMetrics
open Merge (slotBy? slotFrom?)
variable {a b c start final : RpcMetrics} {reports : List RpcMetrics}

/-- What is counted at the end of a path; nothing if the tree does not go so far. -/
def countersAt (m : RpcMetrics) (path : List (RpcSide × String)) : RpcCounters := (m.at? path).getD {}

theorem at?_merge? (h : a.merge? b = some c) (path : List (RpcSide × String)) :
    slotFrom? {} RpcCounters.merge? (a.at? path) (b.at? path) = some (c.at? path) :=
  splits.tracks _ ⟨path, rfl⟩ h

theorem isSome_at?_merge? (h : a.merge? b = some c) (path : List (RpcSide × String)) :
    (c.at? path).isSome ↔ (a.at? path).isSome ∨ (b.at? path).isSome := by
  have hslot := at?_merge? h path
  cases hb : b.at? path with
  | none =>
    rw [hb] at hslot
    rw [← Option.some.inj hslot]
    simp
  | some t =>
    rw [hb] at hslot
    obtain ⟨u, -, hu⟩ := Option.map_eq_some_iff.1 hslot
    simp [← hu]

theorem isJoin_countersAt (h : a.merge? b = some c) (path : List (RpcSide × String)) :
    RpcCounters.IsJoin (a.countersAt path) (b.countersAt path) (c.countersAt path) := by
  have hslot := at?_merge? h path
  rw [countersAt, countersAt, countersAt]
  cases hb : b.at? path with
  | none =>
    rw [hb] at hslot
    rw [← Option.some.inj hslot]
    exact RpcCounters.isJoin_nothing _
  | some t =>
    rw [hb] at hslot
    obtain ⟨u, hu, hc⟩ := Option.map_eq_some_iff.1 hslot
    rw [← hc]
    exact RpcCounters.isJoin_merge? hu

/-- Two trees can be merged if the counters at the ends of all paths have sums. -/
theorem isSome_merge?_iff (a b : RpcMetrics) : (a.merge? b).isSome ↔ ∀ path, ∀ f ∈ RpcCounters.counters,
    InSignedRange ((f (a.countersAt path)).toInt + (f (b.countersAt path)).toInt) := by
  constructor
  · intro h path f hf
    obtain ⟨c, hc⟩ := Option.isSome_iff_exists.1 h
    rw [← (isJoin_countersAt hc path).counters f hf]
    exact inSignedRange_toInt _
  · intro h
    refine splits.isSome ?_
    rintro p ⟨path, rfl⟩
    cases hb : b.at? path with
    | none => simp only [slotFrom?, hb, slotBy?, Option.isSome_some]
    | some t =>
      simp only [slotFrom?, hb, slotBy?, Option.isSome_map]
      refine RpcCounters.isSome_merge? fun f hf => isSome_add?_signed.2 ?_
      simpa only [countersAt, hb, Option.getD_some] using h path f hf

/-- What is shown as the last pong and its ping was shown so before, or there was none. -/
theorem pong_countersAt (h : a.merge? b = some c) (path : List (RpcSide × String)) :
    (c.countersAt path).pong = (a.countersAt path).pong ∨ (c.countersAt path).pong = (b.countersAt path).pong :=
  (isJoin_countersAt h path).pong_eq

theorem pong_foldlM (h : reports.foldlM merge? start = some final) (path : List (RpcSide × String)) :
    ∃ m ∈ start :: reports, (final.countersAt path).pong = (m.countersAt path).pong := by
  induction reports generalizing start with
  | nil =>
    cases h
    exact ⟨_, List.mem_cons_self, rfl⟩
  | cons r reports ih =>
    rw [List.foldlM_cons] at h
    obtain ⟨next, hnext, h⟩ := bind_eq_some.1 h
    obtain ⟨m, hm, hpong⟩ := ih h
    rcases List.mem_cons.1 hm with rfl | hm
    · rcases pong_countersAt hnext path with hstart | hreport
      · exact ⟨start, List.mem_cons_self, hpong.trans hstart⟩
      · exact ⟨r, List.mem_cons_of_mem _ List.mem_cons_self, hpong.trans hreport⟩
    · exact ⟨m, List.mem_cons_of_mem _ (List.mem_cons_of_mem _ hm), hpong⟩

/-- A tree shows a pong of its own at the end of a path, or none. -/
theorem pong_countersAt_cases (m : RpcMetrics) (path : List (RpcSide × String)) :
    (∃ c, m.at? path = some c ∧ (m.countersAt path).pong = c.pong) ∨ (m.countersAt path).pong = (.zero, .zero) := by
  rw [countersAt]
  cases m.at? path with
  | none => exact .inr rfl
  | some c => exact .inl ⟨c, rfl, rfl⟩

/-- Trees are merged path by path, if every counter has a sum at the end of every path; and after any number of merges
the last pong at the end of a path is shown with its own ping. -/
theorem joins_along_paths :
    (∀ a b : RpcMetrics, (a.merge? b).isSome ↔ ∀ path, ∀ f ∈ RpcCounters.counters,
      InSignedRange ((f (a.countersAt path)).toInt + (f (b.countersAt path)).toInt)) ∧
    (∀ a b c : RpcMetrics, a.merge? b = some c → ∀ path,
      ((c.at? path).isSome ↔ (a.at? path).isSome ∨ (b.at? path).isSome) ∧
      RpcCounters.IsJoin (a.countersAt path) (b.countersAt path) (c.countersAt path)) ∧
    (∀ (start : RpcMetrics) (reports : List RpcMetrics) (final : RpcMetrics),
      reports.foldlM merge? start = some final → ∀ path,
      (∃ m ∈ start :: reports, ∃ c, m.at? path = some c ∧ (final.countersAt path).pong = c.pong) ∨
      (final.countersAt path).pong = (.zero, .zero)) := by
  refine ⟨isSome_merge?_iff, fun a b c h path => ⟨isSome_at?_merge? h path, isJoin_countersAt h path⟩, ?_⟩
  intro start reports final h path
  obtain ⟨m, hm, hpong⟩ := pong_foldlM h path
  rcases m.pong_countersAt_cases path with ⟨c, hc, hshown⟩ | hnone
  · exact .inl ⟨m, hm, c, hc, hpong.trans hshown⟩
  · exact .inr (hpong.trans hnone)

/-- Calls of a node, or of one peer, with the time and the ping of the last pong. -/
def hearing (pong : Int) (ping : Nat) (peers : List (String × RpcMetrics)) : RpcMetrics :=
  node { connected := 1, lastPong := .ofUnixSeconds pong, lastPing := .ofNat ping } (.ofList peers) .empty

def westNode : RpcMetrics := hearing 300 1 [("p", hearing 100 2 [])]

def eastNode : RpcMetrics := hearing 200 3 [("p", hearing 400 4 []), ("q", hearing 50 5 [])]

/-- The west node had its last pong later, but from the peer `p` the east node did. -/
theorem joins_twoNodes : ∃ c d, westNode.merge? eastNode = some c ∧ (c.at? [(.destination, "q")]).isSome ∧
    (c.countersAt []).pong = (.ofUnixSeconds 300, .ofNat 1) ∧
    (c.countersAt [(.destination, "p")]).pong = (.ofUnixSeconds 400, .ofNat 4) ∧
    [eastNode, westNode].foldlM merge? westNode = some d ∧
    ((∃ m ∈ [westNode, eastNode, westNode], ∃ k, m.at? [(.destination, "q")] = some k ∧
      (d.countersAt [(.destination, "q")]).pong = k.pong) ∨
      (d.countersAt [(.destination, "q")]).pong = (.zero, .zero)) := by
  have hmerge : (westNode.merge? eastNode).isSome := by decide +kernel
  have hfold : ([eastNode, westNode].foldlM merge? westNode).isSome := by decide +kernel
  obtain ⟨c, hc⟩ := Option.isSome_iff_exists.1 hmerge
  obtain ⟨d, hd⟩ := Option.isSome_iff_exists.1 hfold
  obtain ⟨-, hjoins, hshown⟩ := joins_along_paths
  have hq : (eastNode.at? [(.destination, "q")]).isSome := by decide +kernel
  have hpong : ∀ path, (c.countersAt path).pong =
      ((westNode.countersAt path).lastPong.latest (eastNode.countersAt path).lastPong,
        if (westNode.countersAt path).lastPong.lt (eastNode.countersAt path).lastPong then
          (eastNode.countersAt path).lastPing else (westNode.countersAt path).lastPing) := by
    intro path
    obtain ⟨-, hjoin⟩ := hjoins _ _ _ hc path
    rw [RpcCounters.pong, hjoin.lastPong, hjoin.lastPing]
  refine ⟨c, d, hc, (hjoins _ _ _ hc _).1.2 (.inr hq), ?_, ?_, hd, hshown _ _ _ hd _⟩
  · rw [hpong]
    decide +kernel
  · rw [hpong]
    decide +kernel

end RpcMetrics

end ClusterMetrics
