import ClusterMetrics.Proofs.DriveEntries
import ClusterMetrics.Proofs.Merge.Order

/-! # Replies of nodes, put together

What a view shows after the replies of some nodes were added to it, said of the replies of the nodes that were asked for:
which hosts and errors it lists, what their metrics come to, and what is found under the name of a node or of a drive
(`ClusterView.ShowsReplies`).

Main statement: every view of replies shows them, and there is one unless their metrics cannot be merged
(`ClusterView.showsReplies_addNodes?`). -/

namespace ClusterMetrics

theorem KeyMap.get?_filterKeys {α : Type} (p : String → Bool) (m : KeyMap α) (k : String) :
    (m.filterKeys p).get? k = if p k then m.get? k else none := by
  refine Option.ext fun v => ?_
  rw [← mem_entries_iff, filterKeys, List.mem_filter, mem_entries_iff, and_comm]
  exact Option.ite_none_right_eq_some.symm

/-! ### One reply -/

/-- How a node that failed is noted. -/
def NodeReport.failure? (node : NodeReport) : Option String :=
  if node.node.error = "" then none else some s!"{node.node.address}: {node.node.error}"

namespace Frame

theorem errors_ofNode (node : NodeReport) (request : Request) :
    (ofNode node request).errors = node.failure?.toList := by
  change NodeStatus.failures [node.node] = _
  rw [NodeStatus.failures, NodeReport.failure?]
  by_cases herror : node.node.error = "" <;> simp [NodeStatus.error?, herror]

theorem get?_byHost_ofNode (node : NodeReport) (request : Request) (host : String) :
    (ofNode node request).byHost.get? host =
      if request.byHost && node.node.address == host then some (node.metrics.restrict request.types) else none := by
  rw [ofNode]
  cases request.byHost with
  | false => rfl
  | true =>
    rw [if_pos rfl, KeyMap.get?_insert, KeyMap.get?_empty, Bool.true_and]
    exact if_congr (eq_comm.trans beq_iff_eq.symm) rfl rfl

theorem get?_byDisk_ofNode (node : NodeReport) (request : Request) (disk : String) :
    (ofNode node request).byDisk.get? disk =
      if request.byDisk && request.wantsDisk disk then node.byDisk.get? disk else none := by
  rw [ofNode]
  cases request.byDisk with
  | false => rfl
  | true => rw [if_pos rfl, KeyMap.get?_filterKeys, Bool.true_and]

end Frame

/-! ### All replies -/

namespace ClusterView
open ViewCall (frames)
variable {v w : ClusterView} {request : Request} {nodes : List NodeReport}

/-- The replies of the nodes that were asked for. -/
def selected (nodes : List NodeReport) (request : Request) : List NodeReport :=
  nodes.filter fun node => request.wantsHost node.node.address

/-- What a view shows of replies to a request. -/
structure ShowsReplies (replies : List NodeReport) (request : Request) (v : ClusterView) : Prop where
  hosts : v.frame.hosts.Perm (replies.map (·.node.address))
  ordered : (v.frame.hosts.map utf8Bytes).Pairwise (· ≤ ·)
  errors : v.frame.errors = replies.filterMap (·.failure?)
  total : MetricBundle.mergeAll? (replies.map (·.metrics.restrict request.types)) = some v.frame.total
  /-- Under the name of a node stand the metrics of its last reply. -/
  byHost : ∀ host, v.frame.byHost.get? host =
    if request.byHost then (replies.filter (·.node.address == host)).getLast?.map (·.metrics.restrict request.types)
    else none
  /-- Under the name of a drive stands what was last reported for it. -/
  byDisk : ∀ disk, v.frame.byDisk.get? disk =
    if request.byDisk && request.wantsDisk disk then (replies.filterMap (·.byDisk.get? disk)).getLast? else none
  isFinal : v.frame.isFinal = false
  merged : v.merged = replies.length

theorem frames_addNode_selected (nodes : List NodeReport) (request : Request) :
    frames (nodes.map (.addNode · request)) = (selected nodes request).map (Frame.ofNode · request) :=
  frames_addNode nodes request

theorem map_total_addNodes? (nodes : List NodeReport) (request : Request) :
    (addNodes? nodes request).map (·.frame.total) =
      MetricBundle.mergeAll? ((selected nodes request).map (·.metrics.restrict request.types)) := by
  rw [addNodes?_eq_calls?, calls?, map_total_foldlM_call?, frames_addNode_selected, List.map_map]
  rfl

theorem errors_addNode (nodes : List NodeReport) (request : Request) :
    (nodes.map (.addNode · request)).flatMap ViewCall.errors = (selected nodes request).filterMap (·.failure?) := by
  rw [selected, List.filterMap_filter, List.filterMap_eq_flatMap_toList, List.flatMap_map]
  refine congrArg nodes.flatMap (funext fun node => ?_)
  rw [ViewCall.errors, Frame.errors_ofNode]
  split <;> rfl

theorem lastValue?_byHost (nodes : List NodeReport) (request : Request) (host : String) :
    KeyMap.lastValue? ((frames (nodes.map (.addNode · request))).map Frame.byHost) host =
      if request.byHost then
        ((selected nodes request).filter (·.node.address == host)).getLast?.map (·.metrics.restrict request.types)
      else none := by
  rw [frames_addNode_selected, KeyMap.lastValue?, List.map_map, List.filterMap_map]
  change ((selected nodes request).filterMap fun node => (Frame.ofNode node request).byHost.get? host).getLast? = _
  simp only [Frame.get?_byHost_ofNode]
  cases request.byHost with
  | false => simp
  | true =>
    rw [if_pos rfl, ← List.getLast?_map, ← List.filterMap_eq_map, List.filterMap_filter]
    simp only [Bool.true_and, Function.comp_apply]

theorem lastValue?_byDisk (nodes : List NodeReport) (request : Request) (disk : String) :
    KeyMap.lastValue? ((frames (nodes.map (.addNode · request))).map Frame.byDisk) disk =
      if request.byDisk && request.wantsDisk disk then
        ((selected nodes request).filterMap (·.byDisk.get? disk)).getLast?
      else none := by
  rw [frames_addNode_selected, KeyMap.lastValue?, List.map_map, List.filterMap_map]
  change ((selected nodes request).filterMap fun node => (Frame.ofNode node request).byDisk.get? disk).getLast? = _
  simp only [Frame.get?_byDisk_ofNode]
  cases request.byDisk && request.wantsDisk disk with
  | false => simp
  | true => rfl

theorem showsReplies_of_addNodes? (h : addNodes? nodes request = some v) :
    ShowsReplies (selected nodes request) request v := by
  have htotal := map_total_addNodes? nodes request
  rw [h, Option.map_some] at htotal
  rw [addNodes?_eq_calls?] at h
  have hv := reflects_of_calls? h
  exact {
    hosts := by
      have hhosts := hv.hosts
      have hnames := List.flatMap_pure_eq_map (fun node : NodeReport => node.node.address) (selected nodes request)
      rw [frames_addNode_selected, List.flatMap_map] at hhosts
      exact hhosts.trans (.of_eq hnames)
    ordered := List.pairwise_map.2 (hv.ordered.imp le_iff_utf8Bytes.1)
    errors := hv.errors.trans (errors_addNode nodes request)
    total := htotal.symm
    byHost := fun host => (hv.byHost host).trans (lastValue?_byHost nodes request host)
    byDisk := fun disk => (hv.byDisk disk).trans (lastValue?_byDisk nodes request disk)
    isFinal := hv.isFinal
    merged := by rw [hv.merged, frames_addNode_selected, List.length_map] }

/-- The view of the replies of some nodes shows those of the nodes that were asked for. There is one just when their
metrics can be merged, and what it says of drives does not depend on the categories that were asked for. -/
theorem showsReplies_addNodes? (nodes : List NodeReport) (request : Request) :
    (addNodes? nodes request).map (·.frame.total) =
      MetricBundle.mergeAll? ((selected nodes request).map (·.metrics.restrict request.types)) ∧
    ∀ v, addNodes? nodes request = some v → ShowsReplies (selected nodes request) request v ∧
      ∀ types w, addNodes? nodes { request with types } = some w → w.frame.byDisk = v.frame.byDisk := by
  refine ⟨map_total_addNodes? nodes request, fun v h => ⟨showsReplies_of_addNodes? h, fun types w hw => ?_⟩⟩
  refine KeyMap.ext_get? fun disk => ?_
  rw [(showsReplies_of_addNodes? hw).byDisk, (showsReplies_of_addNodes? h).byDisk]
  rfl

/-- "n2" replies twice, "n1" fails, and "n9" is not asked. -/
def fourReplies : List NodeReport := [
  { node := { address := "n2" }, metrics := { disk := some { drives := 4 }, cpu := some { count := 8 } }
    byDisk := .ofList [("/mnt/a", { drives := 1 }), ("/mnt/b", {})] },
  { node := { address := "n9" }, metrics := { disk := some { drives := 9 } }, byDisk := .ofList [("/mnt/a", {})] },
  { node := { address := "n1", error := "timeout" } },
  { node := { address := "n2" }, metrics := { network := some {} }, byDisk := .ofList [("/mnt/a", { drives := 2 })] }]

/-- Asks two nodes for drives and the network, each node for itself, and for one of the drives. -/
def narrowRequest : Request :=
  { Request.default with
    types := ⟨0x22⟩, hosts := ["n1", "n2"], byHost := true, disks := ["/mnt/a"], byDisk := true }

theorem showsReplies_fourReplies : ∃ v, addNodes? fourReplies narrowRequest = some v ∧
    v.frame.hosts.Perm ["n2", "n1", "n2"] ∧ v.frame.errors = ["n1: timeout"] ∧ v.merged = 3 ∧
    (v.frame.byHost.get? "n2").map (·.types) = some ⟨0x20⟩ ∧ (v.frame.byHost.get? "n9").isNone ∧
    v.frame.byDisk.get? "/mnt/a" = some { drives := 2 } ∧ v.frame.byDisk.get? "/mnt/b" = none := by
  obtain ⟨-, hshows⟩ := showsReplies_addNodes? fourReplies narrowRequest
  have hsome : (addNodes? fourReplies narrowRequest).isSome := by decide +kernel
  obtain ⟨v, hv⟩ := Option.isSome_iff_exists.1 hsome
  obtain ⟨h, -⟩ := hshows v hv
  have hnames : (selected fourReplies narrowRequest).map (·.node.address) = ["n2", "n1", "n2"] := by decide +kernel
  refine ⟨v, hv, hnames ▸ h.hosts, h.errors.trans (by decide +kernel), h.merged.trans (by decide +kernel), ?_, ?_, ?_, ?_⟩
  · rw [h.byHost]
    decide +kernel
  · rw [h.byHost]
    decide +kernel
  · rw [h.byDisk]
    decide +kernel
  · rw [h.byDisk]
    decide +kernel

end ClusterView

end ClusterMetrics
