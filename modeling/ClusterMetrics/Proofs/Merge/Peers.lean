import ClusterMetrics.Proofs.Merge.Records

/-! # Trees of peers

Counters of calls lie at the ends of paths from peer to peer. Merging two trees merges what lies at the end of
every path, each path for itself (`RpcMetrics.splits`). -/

namespace ClusterMetrics
open Merge (slotBy? slotFrom?)

/-- From which side a peer is looked at. -/
inductive RpcSide where
  | destination
  | caller
deriving DecidableEq, Repr

namespace RpcTree
variable {a b c t u : RpcTree} {side : RpcSide} {key : String} {path : List (RpcSide × String)}
  {ps qs : List (String × RpcTree)}

/-! ### Paths -/

def peers (t : RpcTree) : RpcSide → List (String × RpcTree)
  | .destination => t.byDestination
  | .caller => t.byCaller

/-- The counters at the end of a path, if the tree goes so far. -/
def at? : List (RpcSide × String) → RpcTree → Option RpcCounters
  | [], t => some t.own
  | (side, key) :: path, t => (Entries.get? key (t.peers side)).bind (at? path)

theorem Sorted.keySorted_peers (h : t.Sorted) (side : RpcSide) : KeySorted (t.peers side) := by
  cases side with
  | destination => exact h.destinations_keySorted
  | caller => exact h.callers_keySorted

theorem Sorted.of_mem_peers (h : t.Sorted) (side : RpcSide) : ∀ p ∈ t.peers side, p.2.Sorted := by
  cases side with
  | destination => exact h.of_mem_byDestination
  | caller => exact h.of_mem_byCaller

theorem Sorted.of_get? (h : t.Sorted) (hget : Entries.get? key (t.peers side) = some u) : u.Sorted :=
  h.of_mem_peers side _ (Entries.mem_of_get? hget)

theorem Sorted.getD_get? (h : t.Sorted) : ((Entries.get? key (t.peers side)).getD empty).Sorted := by
  cases hget : Entries.get? key (t.peers side) with
  | none => exact sorted_empty
  | some u => exact h.of_get? hget

/-! ### Merging along a path -/

theorem mergePeers?_eq (ps qs : List (String × RpcTree)) :
    mergePeers? ps qs = Entries.combine? (fun old t => merge? (old.getD empty) t) ps qs := by
  induction qs generalizing ps with
  | nil => rw [mergePeers?, Entries.combine?, List.foldlM_nil]; rfl
  | cons q qs ih =>
    obtain ⟨key, t⟩ := q
    rw [mergePeers?, Entries.combine?, List.foldlM_cons]
    refine bind_congr fun ps' => ?_
    rw [ih ps', Entries.combine?]

theorem own_merge? (h : a.merge? b = some c) : a.own.merge? b.own = some c.own := by
  obtain ⟨own, ds, cs⟩ := b
  rw [merge?] at h
  obtain ⟨_, hown, h⟩ := bind_eq_some.1 h
  iterate 2 obtain ⟨_, _, h⟩ := bind_eq_some.1 h
  obtain rfl := Option.some.inj h
  exact hown

theorem peers_merge? (h : a.merge? b = some c) (side : RpcSide) :
    Entries.combine? (fun old t => merge? (old.getD empty) t) (a.peers side) (b.peers side) =
      some (c.peers side) := by
  obtain ⟨own, ds, cs⟩ := b
  rw [merge?] at h
  obtain ⟨_, _, h⟩ := bind_eq_some.1 h
  obtain ⟨_, hds, h⟩ := bind_eq_some.1 h
  obtain ⟨_, hcs, h⟩ := bind_eq_some.1 h
  obtain rfl := Option.some.inj h
  rw [← mergePeers?_eq]
  cases side with
  | destination => exact hds
  | caller => exact hcs

/-- Where there was no peer yet, an empty tree in its place makes no difference. -/
theorem slotFrom?_at?_getD (o : Option RpcTree) (t : RpcTree) (path : List (RpcSide × String)) :
    slotFrom? {} RpcCounters.merge? ((o.getD empty).at? path) (t.at? path) =
      slotFrom? {} RpcCounters.merge? (o.bind (at? path)) (t.at? path) := by
  cases o with
  | some u => rfl
  | none =>
    cases path with
    | nil => rfl
    | cons step path => obtain ⟨side | side, key⟩ := step <;> rfl

theorem at?_merge? (h : a.merge? b = some c) (ha : a.Sorted) (hb : b.Sorted) (path : List (RpcSide × String)) :
    slotFrom? {} RpcCounters.merge? (a.at? path) (b.at? path) = some (c.at? path) := by
  induction path generalizing a b c with
  | nil => exact congrArg (Option.map some) (own_merge? h)
  | cons step path ih =>
    obtain ⟨side, key⟩ := step
    have hpeer := Entries.get?_combine? (peers_merge? h side) (ha.keySorted_peers side) (hb.keySorted_peers side) key
    rw [at?, at?, at?]
    cases hget : Entries.get? key (b.peers side) with
    | none =>
      rw [hget] at hpeer
      rw [← Option.some.inj hpeer]
      rfl
    | some t =>
      rw [hget] at hpeer
      obtain ⟨u, hu, hc⟩ := Option.map_eq_some_iff.1 hpeer
      rw [← hc, Option.bind_some, Option.bind_some, ← slotFrom?_at?_getD]
      exact ih hu ha.getD_get? (hb.of_get? hget)

theorem isSome_mergePeers? (ha : a.Sorted) (hb : b.Sorted) (side : RpcSide)
    (h : ∀ key u, Entries.get? key (b.peers side) = some u →
      (merge? ((Entries.get? key (a.peers side)).getD empty) u).isSome) :
    (mergePeers? (a.peers side) (b.peers side)).isSome := by
  rw [mergePeers?_eq]
  refine Entries.isSome_combine? (ha.keySorted_peers side) (hb.keySorted_peers side) fun key => ?_
  cases hget : Entries.get? key (b.peers side) with
  | none => rfl
  | some u =>
    rw [slotBy?, Option.isSome_map]
    exact h key u hget

/-- Trees can be merged if the counters at the ends of all paths can. -/
theorem isSome_merge? (hb : b.Sorted) (ha : a.Sorted)
    (h : ∀ path, (slotFrom? {} RpcCounters.merge? (a.at? path) (b.at? path)).isSome) : (a.merge? b).isSome := by
  induction hb generalizing a with
  | @node own ds cs hds hcs hdsSorted hcsSorted ihds ihcs =>
    have hb : (node own ds cs).Sorted := .node hds hcs hdsSorted hcsSorted
    have hown : (a.own.merge? own).isSome := by
      have hroot := h []
      rwa [at?, at?, slotFrom?, slotBy?, Option.isSome_map] at hroot
    have hpeers : ∀ side, (mergePeers? (a.peers side) ((node own ds cs).peers side)).isSome := by
      intro side
      refine isSome_mergePeers? ha hb side fun key u hget => ?_
      have hmem := Entries.mem_of_get? hget
      have hpaths : ∀ path, (slotFrom? {} RpcCounters.merge?
          (((Entries.get? key (a.peers side)).getD empty).at? path) (u.at? path)).isSome := by
        intro path
        have hstep := h ((side, key) :: path)
        rwa [at?, at?, hget, Option.bind_some, ← slotFrom?_at?_getD] at hstep
      cases side with
      | destination => exact ihds _ hmem ha.getD_get? hpaths
      | caller => exact ihcs _ hmem ha.getD_get? hpaths
    rw [merge?]
    refine isSome_bind hown fun _ => isSome_bind (hpeers .destination) fun _ => ?_
    exact isSome_bind (hpeers .caller) fun _ => rfl

end RpcTree

namespace RpcMetrics
variable {a b c : RpcMetrics}

/-- The counters at the end of a path, if the tree goes so far. -/
def at? (m : RpcMetrics) (path : List (RpcSide × String)) : Option RpcCounters := m.tree.at? path

theorem map_tree_merge? (a b : RpcMetrics) : (a.merge? b).map tree = a.tree.merge? b.tree := by
  rw [merge?]
  split
  next h => exact h.symm
  next h => exact h.symm

theorem tree_merge? (h : a.merge? b = some c) : a.tree.merge? b.tree = some c.tree := by
  rw [← map_tree_merge?, h, Option.map_some]

/-- Trees of peers absorb path by path. -/
theorem splits : Splits merge? {p | ∃ path, p = .field (fun m => m.at? path) (slotFrom? {} RpcCounters.merge?)} where
  tracks := by
    rintro p ⟨path, rfl⟩ a b c h
    exact RpcTree.at?_merge? (tree_merge? h) a.sorted b.sorted path
  isSome := by
    intro a b h
    rw [← Option.isSome_map, map_tree_merge?]
    exact RpcTree.isSome_merge? b.sorted a.sorted fun path => h _ ⟨path, rfl⟩

end RpcMetrics

end ClusterMetrics
