import ClusterMetrics.Binary64.Text
import ClusterMetrics.Category.Codec
import ClusterMetrics.Frame

/-! # Frames as lines of text -/

namespace ClusterMetrics.Report

/-- A count of bytes in the largest unit of which there is at least one, to one place. -/
def byteCount (n : UInt64) : String :=
  let inUnits (unit : Nat) : String := ((Binary64.ofNat n.toNat).div (Binary64.ofNat unit)).toFixed 1
  if 0x40000000 ≤ n.toNat then inUnits 0x40000000 ++ "G"
  else if 0x100000 ≤ n.toNat then inUnits 0x100000 ++ "M"
  else if 0x400 ≤ n.toNat then inUnits 0x400 ++ "K"
  else s!"{n.toNat}B"

/-- A word for a count that is not zero. -/
def unlessZero (label : String) (n : UInt64) : List String :=
  if n = 0 then [] else [s!"{label}={n.toNat}"]

def cpuWords (c : CpuMetrics) : List String :=
  s!"cpus={c.count.toInt}" :: (c.load.map fun l => s!"load1={l.load1.toFixed 2}").toList

def memoryWords (m : MemoryMetrics) : List String :=
  [s!"mem={byteCount m.memory.used}/{byteCount m.memory.total}"]

def driveWords (d : DriveMetrics) : List String :=
  s!"disks={d.drives.toNat}" :: unlessZero "offline" d.offline ++ unlessZero "healing" d.healing

def networkWords (n : NetworkMetrics) : List String :=
  [s!"rx={byteCount n.counters.rxBytes}", s!"tx={byteCount n.counters.txBytes}"]

def scannerWords (s : ScannerMetrics) : List String := [s!"scan.cycle={s.cycle.toNat}"]

def rpcWords (r : RpcMetrics) : List String := [s!"rpc.connected={r.tree.own.connected.toInt}"]

/-- The headline figures of each category that has some. -/
def bundleWords (m : MetricBundle) : List String :=
  (m.cpu.map cpuWords).getD [] ++ (m.memory.map memoryWords).getD [] ++
    (m.disk.map driveWords).getD [] ++ (m.network.map networkWords).getD [] ++
    (m.scanner.map scannerWords).getD [] ++ (m.rpc.map rpcWords).getD []

/-- A frame in one line: how many nodes, which categories, and headline figures. -/
def line (f : Frame) : String :=
  " ".intercalate <|
    [s!"hosts={f.hosts.length}", s!"types={f.total.types.format}"] ++ bundleWords f.total ++
      (if f.errors.isEmpty then [] else [s!"errors={f.errors.length}"]) ++
      (if f.isFinal then ["final"] else [])

end ClusterMetrics.Report
