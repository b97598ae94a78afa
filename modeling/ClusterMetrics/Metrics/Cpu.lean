import ClusterMetrics.Json.Record
import ClusterMetrics.Merge
import ClusterMetrics.NumEq
import ClusterMetrics.Timestamp.Codec

/-! # Processors

Everything is summed, load averages too: merged, they are the load of the whole cluster. -/

namespace ClusterMetrics
open CheckedAdd (add?)

/-- Seconds spent in each state. -/
structure CpuTimes where
  cpu : String := ""
  user : Binary64 := .zero
  system : Binary64 := .zero
  idle : Binary64 := .zero
  nice : Binary64 := .zero
  iowait : Binary64 := .zero
  irq : Binary64 := .zero
  softirq : Binary64 := .zero
  steal : Binary64 := .zero
  guest : Binary64 := .zero
  guestNice : Binary64 := .zero
deriving DecidableEq, Repr

namespace CpuTimes

instance : Inhabited CpuTimes := ⟨{}⟩

def merge (a b : CpuTimes) : CpuTimes where
  cpu := Merge.firstNonempty a.cpu b.cpu
  user := a.user.add b.user
  system := a.system.add b.system
  idle := a.idle.add b.idle
  nice := a.nice.add b.nice
  iowait := a.iowait.add b.iowait
  irq := a.irq.add b.irq
  softirq := a.softirq.add b.softirq
  steal := a.steal.add b.steal
  guest := a.guest.add b.guest
  guestNice := a.guestNice.add b.guestNice

instance : Merge CpuTimes := ⟨{}, fun a b => some (a.merge b)⟩

def numEq (a b : CpuTimes) : Bool :=
  a.cpu == b.cpu && a.user.numEq b.user && a.system.numEq b.system && a.idle.numEq b.idle &&
    a.nice.numEq b.nice && a.iowait.numEq b.iowait && a.irq.numEq b.irq && a.softirq.numEq b.softirq &&
    a.steal.numEq b.steal && a.guest.numEq b.guest && a.guestNice.numEq b.guestNice

instance : NumEq CpuTimes := ⟨numEq⟩

def record : Record CpuTimes where
  default := {}
  isFlattened := false
  fields := [
    .plain "cpu" .text (·.cpu) (fun v t => { t with cpu := v }),
    .plain "user" .double (·.user) (fun v t => { t with user := v }),
    .plain "system" .double (·.system) (fun v t => { t with system := v }),
    .plain "idle" .double (·.idle) (fun v t => { t with idle := v }),
    .plain "nice" .double (·.nice) (fun v t => { t with nice := v }),
    .plain "iowait" .double (·.iowait) (fun v t => { t with iowait := v }),
    .plain "irq" .double (·.irq) (fun v t => { t with irq := v }),
    .plain "softirq" .double (·.softirq) (fun v t => { t with softirq := v }),
    .plain "steal" .double (·.steal) (fun v t => { t with steal := v }),
    .plain "guest" .double (·.guest) (fun v t => { t with guest := v }),
    .plain "guestNice" .double (·.guestNice) (fun v t => { t with guestNice := v })]

def codec : Codec CpuTimes := record.codec

end CpuTimes

/-- The mean number of processes that wanted to run in the last 1, 5 and 15 minutes. -/
structure LoadAverages where
  load1 : Binary64 := .zero
  load5 : Binary64 := .zero
  load15 : Binary64 := .zero
deriving DecidableEq, Repr

namespace LoadAverages

instance : Inhabited LoadAverages := ⟨{}⟩

def merge (a b : LoadAverages) : LoadAverages where
  load1 := a.load1.add b.load1
  load5 := a.load5.add b.load5
  load15 := a.load15.add b.load15

instance : Merge LoadAverages := ⟨{}, fun a b => some (a.merge b)⟩

def numEq (a b : LoadAverages) : Bool :=
  a.load1.numEq b.load1 && a.load5.numEq b.load5 && a.load15.numEq b.load15

instance : NumEq LoadAverages := ⟨numEq⟩

def record : Record LoadAverages where
  default := {}
  isFlattened := false
  fields := [
    .plain "load1" .double (·.load1) (fun v l => { l with load1 := v }),
    .plain "load5" .double (·.load5) (fun v l => { l with load5 := v }),
    .plain "load15" .double (·.load15) (fun v l => { l with load15 := v })]

def codec : Codec LoadAverages := record.codec

end LoadAverages

structure CpuMetrics where
  collected : Timestamp := .zero
  times : Option CpuTimes := none
  load : Option LoadAverages := none
  count : Int64 := 0
deriving DecidableEq, Repr

namespace CpuMetrics

instance : Inhabited CpuMetrics := ⟨{}⟩

def merge? (a b : CpuMetrics) : Option CpuMetrics := do
  return {
    collected := a.collected.latest b.collected
    times := ← Merge.slot? a.times b.times
    load := ← Merge.slot? a.load b.load
    count := ← add? a.count b.count }

instance : Merge CpuMetrics := ⟨{}, merge?⟩

def numEq (a b : CpuMetrics) : Bool :=
  a.collected == b.collected && NumEq.numEq a.times b.times && NumEq.numEq a.load b.load &&
    a.count == b.count

instance : NumEq CpuMetrics := ⟨numEq⟩

def record : Record CpuMetrics where
  default := {}
  isFlattened := false
  fields := [
    .plain "collected" Timestamp.codec (·.collected) (fun v m => { m with collected := v }),
    .plain "timesStat" CpuTimes.codec.option (·.times) (fun v m => { m with times := v }),
    .plain "loadStat" LoadAverages.codec.option (·.load) (fun v m => { m with load := v }),
    .plain "cpuCount" .int64 (·.count) (fun v m => { m with count := v })]

def codec : Codec CpuMetrics := record.codec

end CpuMetrics

end ClusterMetrics
