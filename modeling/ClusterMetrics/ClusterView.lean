import ClusterMetrics.Frame

/-! # A view of the cluster that grows

Frames and the replies of nodes are merged into one view, and what could not contribute is noted in it. -/

namespace ClusterMetrics

structure ClusterView where
  frame : Frame := {}
  /-- How many frames were merged. -/
  merged : Nat := 0

namespace ClusterView

/-- The view with one more frame, unless a counter leaves its range. Whether the frame is final does not
matter. -/
def absorb? (v : ClusterView) (f : Frame) : Option ClusterView :=
  (v.frame.merge? f).map (⟨·, v.merged + 1⟩)

/-- The view with the reply of a node, if the request selects the node. -/
def addNode? (v : ClusterView) (node : NodeReport) (request : Request) : Option ClusterView :=
  if request.wantsHost node.node.address then v.absorb? (.ofNode node request) else some v

/-- The view with a note that a source could not contribute. -/
def recordError (v : ClusterView) (source error : String) : ClusterView :=
  { v with frame := { v.frame with errors := v.frame.errors ++ [s!"{source}: {error}"] } }

end ClusterView

end ClusterMetrics
