import ClusterMetrics.Json.Record
import ClusterMetrics.Merge
import ClusterMetrics.Timestamp.Codec

/-! # Network interfaces -/

namespace ClusterMetrics
open CheckedAdd (add?)

/-- What the kernel counts for an interface. -/
structure InterfaceCounters where
  name : String := ""
  rxBytes : UInt64 := 0
  rxPackets : UInt64 := 0
  rxErrors : UInt64 := 0
  rxDropped : UInt64 := 0
  rxFifo : UInt64 := 0
  rxFrame : UInt64 := 0
  rxCompressed : UInt64 := 0
  rxMulticast : UInt64 := 0
  txBytes : UInt64 := 0
  txPackets : UInt64 := 0
  txErrors : UInt64 := 0
  txDropped : UInt64 := 0
  txFifo : UInt64 := 0
  txCollisions : UInt64 := 0
  txCarrier : UInt64 := 0
  txCompressed : UInt64 := 0
deriving DecidableEq, Repr

namespace InterfaceCounters

instance : Inhabited InterfaceCounters := ⟨{}⟩

def merge? (a b : InterfaceCounters) : Option InterfaceCounters := do
  return {
    name := Merge.firstNonempty a.name b.name
    rxBytes := ← add? a.rxBytes b.rxBytes
    rxPackets := ← add? a.rxPackets b.rxPackets
    rxErrors := ← add? a.rxErrors b.rxErrors
    rxDropped := ← add? a.rxDropped b.rxDropped
    rxFifo := ← add? a.rxFifo b.rxFifo
    rxFrame := ← add? a.rxFrame b.rxFrame
    rxCompressed := ← add? a.rxCompressed b.rxCompressed
    rxMulticast := ← add? a.rxMulticast b.rxMulticast
    txBytes := ← add? a.txBytes b.txBytes
    txPackets := ← add? a.txPackets b.txPackets
    txErrors := ← add? a.txErrors b.txErrors
    txDropped := ← add? a.txDropped b.txDropped
    txFifo := ← add? a.txFifo b.txFifo
    txCollisions := ← add? a.txCollisions b.txCollisions
    txCarrier := ← add? a.txCarrier b.txCarrier
    txCompressed := ← add? a.txCompressed b.txCompressed }

instance : Merge InterfaceCounters := ⟨{}, merge?⟩

def record : Record InterfaceCounters where
  default := {}
  isFlattened := false
  fields := [
    .plain "name" .text (·.name) (fun v c => { c with name := v }),
    .plain "rx_bytes" .uint64 (·.rxBytes) (fun v c => { c with rxBytes := v }),
    .plain "rx_packets" .uint64 (·.rxPackets) (fun v c => { c with rxPackets := v }),
    .plain "rx_errors" .uint64 (·.rxErrors) (fun v c => { c with rxErrors := v }),
    .plain "rx_dropped" .uint64 (·.rxDropped) (fun v c => { c with rxDropped := v }),
    .plain "rx_fifo" .uint64 (·.rxFifo) (fun v c => { c with rxFifo := v }),
    .plain "rx_frame" .uint64 (·.rxFrame) (fun v c => { c with rxFrame := v }),
    .plain "rx_compressed" .uint64 (·.rxCompressed) (fun v c => { c with rxCompressed := v }),
    .plain "rx_multicast" .uint64 (·.rxMulticast) (fun v c => { c with rxMulticast := v }),
    .plain "tx_bytes" .uint64 (·.txBytes) (fun v c => { c with txBytes := v }),
    .plain "tx_packets" .uint64 (·.txPackets) (fun v c => { c with txPackets := v }),
    .plain "tx_errors" .uint64 (·.txErrors) (fun v c => { c with txErrors := v }),
    .plain "tx_dropped" .uint64 (·.txDropped) (fun v c => { c with txDropped := v }),
    .plain "tx_fifo" .uint64 (·.txFifo) (fun v c => { c with txFifo := v }),
    .plain "tx_collisions" .uint64 (·.txCollisions) (fun v c => { c with txCollisions := v }),
    .plain "tx_carrier" .uint64 (·.txCarrier) (fun v c => { c with txCarrier := v }),
    .plain "tx_compressed" .uint64 (·.txCompressed) (fun v c => { c with txCompressed := v })]

def codec : Codec InterfaceCounters := record.codec

end InterfaceCounters

structure NetworkMetrics where
  collected : Timestamp := .zero
  interface : String := ""
  counters : InterfaceCounters := {}
deriving DecidableEq, Repr

namespace NetworkMetrics

instance : Inhabited NetworkMetrics := ⟨{}⟩

def merge? (a b : NetworkMetrics) : Option NetworkMetrics := do
  return {
    collected := a.collected.latest b.collected
    interface := Merge.firstNonempty a.interface b.interface
    counters := ← a.counters.merge? b.counters }

instance : Merge NetworkMetrics := ⟨{}, merge?⟩

def record : Record NetworkMetrics where
  default := {}
  isFlattened := false
  fields := [
    .plain "collected" Timestamp.codec (·.collected) (fun v m => { m with collected := v }),
    .plain "interfaceName" .text (·.interface) (fun v m => { m with interface := v }),
    .plain "netstats" InterfaceCounters.codec (·.counters) (fun v m => { m with counters := v })]

def codec : Codec NetworkMetrics := record.codec

end NetworkMetrics

end ClusterMetrics
