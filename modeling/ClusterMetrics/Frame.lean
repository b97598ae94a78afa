import ClusterMetrics.Node
import ClusterMetrics.Request

/-! # Frames

A stream of metrics is a sequence of frames, the last of them marked final. A frame holds what several
nodes report, in total and, if asked for, for each node and each drive. Merged frames are a view of the
cluster. -/

namespace ClusterMetrics

structure Frame where
  /-- What could not be collected. -/
  errors : List String := []
  /-- The nodes that contributed. -/
  hosts : List String := []
  total : MetricBundle := {}
  byHost : KeyMap MetricBundle := .empty
  byDisk : KeyMap DriveMetrics := .empty
  isFinal : Bool := false

namespace Frame

instance : Inhabited Frame := ⟨{}⟩

/-- Totals are merged, errors and hosts collected, and of two entries for one node or drive that of `b`
stays. -/
def merge? (a b : Frame) : Option Frame := do
  return {
    errors := a.errors ++ b.errors
    hosts := Merge.sortTexts (a.hosts ++ b.hosts)
    total := ← a.total.merge? b.total
    byHost := a.byHost.overwrite b.byHost
    byDisk := a.byDisk.overwrite b.byDisk
    isFinal := a.isFinal }

instance : Merge Frame := ⟨{}, merge?⟩

def numEq (a b : Frame) : Bool :=
  a.errors == b.errors && a.hosts == b.hosts && NumEq.numEq a.total b.total &&
    NumEq.numEq a.byHost b.byHost && a.byDisk == b.byDisk && a.isFinal == b.isFinal

/-- The frame that a server sends for the reply of one node. -/
def ofNode (node : NodeReport) (request : Request) : Frame :=
  let total := node.metrics.restrict request.types
  { errors := NodeStatus.failures [node.node]
    hosts := [node.node.address]
    total
    byHost := if request.byHost then KeyMap.empty.insert node.node.address total else .empty
    byDisk := if request.byDisk then node.byDisk.filterKeys request.wantsDisk else .empty }

/-- The position a search by halves ends at, among `size` texts from `base` on. -/
def searchFrom (texts : Array String) (target : String) (base size : Nat) : Nat :=
  if _ : 1 < size then
    let half := size / 2
    let middle := base + half
    let base := if target < texts.getD middle "" then base else middle
    searchFrom texts target base (size - half)
  else base
termination_by size
decreasing_by omega

/-- Whether `host` contributed; hosts are searched as sorted texts. -/
def hasHost (f : Frame) (host : String) : Bool :=
  let texts := f.hosts.toArray
  texts[searchFrom texts host 0 texts.size]? == some host

/-- The frame with the metrics of the categories selected, in total and of each node. -/
def restrict (f : Frame) (types : CategoryMask) : Frame :=
  { f with total := f.total.restrict types, byHost := f.byHost.mapValues (·.restrict types) }

def record : Record Frame where
  default := {}
  isFlattened := false
  fields := [
    .optionalList "errors" .text (·.errors) (fun v f => { f with errors := v }),
    .plain "hosts" Codec.text.list.orDefault (·.hosts) (fun v f => { f with hosts := v }),
    .plain "aggregated" MetricBundle.codec (·.total) (fun v f => { f with total := v }),
    .optionalMap "by_host" MetricBundle.codec (·.byHost) (fun v f => { f with byHost := v }),
    .optionalMap "by_disk" DriveMetrics.codec (·.byDisk) (fun v f => { f with byDisk := v }),
    .plain "final" .bool (·.isFinal) (fun v f => { f with isFinal := v })]

def codec : Codec Frame := record.codec

end Frame

end ClusterMetrics
