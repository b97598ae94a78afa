import ClusterMetrics.Json.Record

/-! # Which node replied, and whether it failed -/

namespace ClusterMetrics

structure NodeStatus where
  address : String := ""
  /-- Empty if the node did not fail. -/
  error : String := ""
deriving DecidableEq, Repr

namespace NodeStatus

instance : Inhabited NodeStatus := ⟨{}⟩

/-- The error of a node that failed. -/
def error? (n : NodeStatus) : Option String := if n.error.isEmpty then none else some n.error

/-- The failures of nodes, in their order. -/
def failures (nodes : List NodeStatus) : List String :=
  nodes.filterMap fun n => n.error?.map fun e => s!"{n.address}: {e}"

def record : Record NodeStatus where
  default := {}
  isFlattened := false
  fields := [
    .plain "addr" .text (·.address) (fun v n => { n with address := v }),
    .optionalText "error" (·.error) (fun v n => { n with error := v })]

def codec : Codec NodeStatus := record.codec

end NodeStatus

end ClusterMetrics
