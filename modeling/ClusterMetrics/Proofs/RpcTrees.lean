import ClusterMetrics.Metrics.Rpc

/-! # Trees of calls, node by node

Metrics of calls are their own counters and two maps of peers: `node` puts them together, `own`, `byDestination` and
`byCaller` take them apart, and what holds of a node whenever it holds of its peers holds of every tree
(`RpcMetrics.induction`). -/

namespace ClusterMetrics.RpcMetrics
variable {m : RpcMetrics} {ts : List (String × RpcTree)}

theorem entries_mapValues_peers (h : KeySorted ts) (hs : ∀ p ∈ ts, p.2.Sorted) :
    ((peers ts h hs).mapValues tree).entries = ts := by
  simp [KeyMap.mapValues, peers, List.map_pmap]

theorem peers_mapValues_tree (ps : KeyMap RpcMetrics) (h : KeySorted (ps.mapValues tree).entries)
    (hs : ∀ p ∈ (ps.mapValues tree).entries, p.2.Sorted) : peers (ps.mapValues tree).entries h hs = ps := by
  refine KeyMap.ext ?_
  simp only [KeyMap.mapValues, peers, List.pmap_map]
  exact (List.pmap_eq_map (f := id) ..).trans (List.map_id _)

@[simp] theorem own_node (own : RpcCounters) (ds cs : KeyMap RpcMetrics) : (node own ds cs).own = own := rfl

@[simp] theorem byDestination_node (own : RpcCounters) (ds cs : KeyMap RpcMetrics) :
    (node own ds cs).byDestination = ds := peers_mapValues_tree ..

@[simp] theorem byCaller_node (own : RpcCounters) (ds cs : KeyMap RpcMetrics) :
    (node own ds cs).byCaller = cs := peers_mapValues_tree ..

theorem node_eta (m : RpcMetrics) : node m.own m.byDestination m.byCaller = m := by
  obtain ⟨⟨own, ds, cs⟩, h⟩ := m
  refine ext ?_
  show RpcTree.node own _ _ = _
  rw [byDestination, byCaller, entries_mapValues_peers, entries_mapValues_peers]
  rfl

theorem induction {P : RpcMetrics → Prop}
    (node : ∀ own ds cs, (∀ p ∈ ds.entries, P p.2) → (∀ p ∈ cs.entries, P p.2) → P (node own ds cs))
    (m : RpcMetrics) : P m := by
  obtain ⟨t, h⟩ := m
  induction h with
  | @node own ds cs hds hcs hdsSorted hcsSorted ihds ihcs =>
    have hpeers : ∀ {ts : List (String × RpcTree)} (hts : KeySorted ts) (hs : ∀ p ∈ ts, p.2.Sorted),
        (∀ p (hp : p ∈ ts), P ⟨p.2, hs p hp⟩) → ∀ p ∈ (peers ts hts hs).entries, P p.2 := by
      intro ts hts hs ih p hp
      obtain ⟨q, hq, rfl⟩ := List.mem_pmap.1 hp
      exact ih q hq
    rw [← node_eta ⟨.node own ds cs, _⟩]
    exact node own _ _ (hpeers hds hdsSorted ihds) (hpeers hcs hcsSorted ihcs)

end ClusterMetrics.RpcMetrics
