import Mathlib.Data.List.Dedup
import ClusterMetrics.Proofs.GrowingViews

/-! # Entries of drives

What nodes report for their drives goes into one map, under the names of the drives alone. A view therefore has one
entry for each name that some node reports (`ClusterView.mem_keys_byDisk_iff`), which need not be one for each drive.

Main statement: no entry is lost just when no two of the nodes that were asked for report drives of one name
(`ClusterView.size_byDisk_eq_sum_iff`). -/

namespace ClusterMetrics

namespace KeyMap
variable {α : Type} {m : KeyMap α} {ms : List (KeyMap α)} {k : String}

theorem isSome_lastValue?_iff : (lastValue? ms k).isSome ↔ ∃ n ∈ ms, k ∈ n.keys := by
  rw [lastValue?, List.getLast?_isSome, Ne, List.filterMap_eq_nil_iff]
  simp only [mem_keys_iff, Option.isSome_iff_ne_none]
  push Not
  rfl

theorem length_keys (m : KeyMap α) : m.keys.length = m.size := List.length_map _

theorem sum_size (ms : List (KeyMap α)) : (ms.map size).sum = (ms.flatMap keys).length := by
  rw [List.length_flatMap]
  exact congrArg List.sum (List.map_congr_left fun n _ => n.length_keys.symm)

theorem nodup_flatMap_keys_iff : (ms.flatMap keys).Nodup ↔ ms.Pairwise fun m n => m.keys.Disjoint n.keys := by
  rw [List.nodup_flatMap]
  exact and_iff_right fun m _ => m.nodup_keys

/-! ### A map with the keys of several -/

theorem keys_perm_dedup (h : ∀ k, k ∈ m.keys ↔ ∃ n ∈ ms, k ∈ n.keys) : m.keys.Perm (ms.flatMap keys).dedup := by
  have hnodup : m.keys.Nodup := m.nodup_keys
  refine (List.perm_ext_iff_of_nodup hnodup (List.nodup_dedup _)).2 fun k => ?_
  rw [List.mem_dedup, List.mem_flatMap, h]

theorem size_le_sum (h : ∀ k, k ∈ m.keys ↔ ∃ n ∈ ms, k ∈ n.keys) : m.size ≤ (ms.map size).sum := by
  rw [sum_size, ← length_keys, (keys_perm_dedup h).length_eq]
  exact (List.dedup_sublist _).length_le

theorem size_eq_sum_iff (h : ∀ k, k ∈ m.keys ↔ ∃ n ∈ ms, k ∈ n.keys) :
    m.size = (ms.map size).sum ↔ ms.Pairwise fun m n => m.keys.Disjoint n.keys := by
  rw [sum_size, ← length_keys, (keys_perm_dedup h).length_eq, (List.dedup_sublist _).length_eq, List.dedup_eq_self,
    nodup_flatMap_keys_iff]

end KeyMap

/-- The entries of the drives that were asked for. -/
def NodeReport.drives (request : Request) (node : NodeReport) : KeyMap DriveMetrics :=
  node.byDisk.filterKeys request.wantsDisk

namespace ClusterView
open ViewCall (frames)
variable {v : ClusterView} {request : Request} {nodes : List NodeReport}

/-- A new view with the replies of some nodes, unless a counter leaves its range. -/
def addNodes? (nodes : List NodeReport) (request : Request) : Option ClusterView :=
  nodes.foldlM (fun v node => v.addNode? node request) {}

/-- The entries that the nodes that were asked for bring in, one map for each node. -/
def drivesOf (nodes : List NodeReport) (request : Request) : List (KeyMap DriveMetrics) :=
  (nodes.filter fun node => request.wantsHost node.node.address).map (·.drives request)

theorem addNodes?_eq_calls? (nodes : List NodeReport) (request : Request) :
    addNodes? nodes request = calls? (nodes.map (.addNode · request)) := by
  rw [addNodes?, calls?, List.foldlM_map]
  rfl

theorem frames_addNode (nodes : List NodeReport) (request : Request) : frames (nodes.map (.addNode · request)) =
    (nodes.filter fun node => request.wantsHost node.node.address).map (Frame.ofNode · request) := by
  rw [frames, List.filterMap_map, ← List.filterMap_eq_map, List.filterMap_filter]
  rfl

theorem byDisk_addNodes? (hbyDisk : request.byDisk = true) (h : addNodes? nodes request = some v) (disk : String) :
    v.frame.byDisk.get? disk = KeyMap.lastValue? (drivesOf nodes request) disk := by
  have hdrives : (frames (nodes.map (.addNode · request))).map Frame.byDisk = drivesOf nodes request := by
    rw [frames_addNode, List.map_map, drivesOf]
    exact List.map_congr_left fun node _ => if_pos hbyDisk
  rw [addNodes?_eq_calls?] at h
  rw [(reflects_of_calls? h).byDisk, hdrives]

theorem mem_keys_byDisk_iff (hbyDisk : request.byDisk = true) (h : addNodes? nodes request = some v) (disk : String) :
    disk ∈ v.frame.byDisk.keys ↔ ∃ m ∈ drivesOf nodes request, disk ∈ m.keys := by
  rw [KeyMap.mem_keys_iff, byDisk_addNodes? hbyDisk h, KeyMap.isSome_lastValue?_iff]

/-- A name leads to the entry of the last node that reports it. Hence there are never more entries than were reported,
and as many just when no name is reported twice. -/
theorem size_byDisk_eq_sum_iff (hbyDisk : request.byDisk = true) (h : addNodes? nodes request = some v) :
    (∀ disk, v.frame.byDisk.get? disk = KeyMap.lastValue? (drivesOf nodes request) disk) ∧
    v.frame.byDisk.size ≤ ((drivesOf nodes request).map KeyMap.size).sum ∧
    (v.frame.byDisk.size = ((drivesOf nodes request).map KeyMap.size).sum ↔
      (drivesOf nodes request).Pairwise fun m n => m.keys.Disjoint n.keys) := by
  have hkeys := mem_keys_byDisk_iff hbyDisk h
  exact ⟨byDisk_addNodes? hbyDisk h, KeyMap.size_le_sum hkeys, KeyMap.size_eq_sum_iff hkeys⟩

/-- Of three drives of "n1" two are asked for; "n2" is not asked, and so its drive does not count. -/
def threeNodes : List NodeReport := [
  { node := { address := "n1" }, byDisk := .ofList [("/mnt/a", {}), ("/mnt/b", {}), ("/mnt/c", {})] },
  { node := { address := "n2" }, byDisk := .ofList [("/mnt/a", {})] },
  { node := { address := "n3" }, byDisk := .ofList [("/mnt/d", {})] }]

def someDrives : Request :=
  { Request.default with hosts := ["n1", "n3"], byDisk := true, disks := ["/mnt/a", "/mnt/b", "/mnt/d"] }

theorem size_byDisk_threeNodes : ∃ v, addNodes? threeNodes someDrives = some v ∧ v.frame.byDisk.size = 3 := by
  have hsome : (addNodes? threeNodes someDrives).isSome := by decide +kernel
  obtain ⟨v, hv⟩ := Option.isSome_iff_exists.1 hsome
  obtain ⟨-, -, hsum⟩ := size_byDisk_eq_sum_iff (by decide) hv
  have hnodup : ((drivesOf threeNodes someDrives).flatMap KeyMap.keys).Nodup := by decide +kernel
  have hthree : ((drivesOf threeNodes someDrives).map KeyMap.size).sum = 3 := by decide +kernel
  exact ⟨v, hv, (hsum.2 (KeyMap.nodup_flatMap_keys_iff.1 hnodup)).trans hthree⟩

/-- Two nodes, each with one drive, which they mount at the same place. -/
def twoNodes : List NodeReport := [
  { node := { address := "n1" }, byDisk := .ofList [("/mnt/d1", { drives := 1 })] },
  { node := { address := "n2" }, byDisk := .ofList [("/mnt/d1", { drives := 1 })] }]

theorem size_byDisk_twoNodes : (twoNodes.map (·.node.address)).Nodup ∧
    (addNodes? twoNodes { Request.default with byDisk := true }).map (·.frame.byDisk.size) = some 1 ∧
    ((drivesOf twoNodes { Request.default with byDisk := true }).map KeyMap.size).sum = 2 := by
  decide +kernel

end ClusterView

end ClusterMetrics
