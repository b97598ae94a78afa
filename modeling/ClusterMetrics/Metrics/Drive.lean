import ClusterMetrics.Metrics.Operations
import ClusterMetrics.Timestamp.Codec

/-! # Metrics of drives -/

namespace ClusterMetrics
open CheckedAdd (add?)

/-- What the kernel counts for a block device. -/
structure BlockDeviceCounters where
  readIos : UInt64 := 0
  readMerges : UInt64 := 0
  readSectors : UInt64 := 0
  readTicks : UInt64 := 0
  writeIos : UInt64 := 0
  writeMerges : UInt64 := 0
  writeSectors : UInt64 := 0
  writeTicks : UInt64 := 0
  currentIos : UInt64 := 0
  totalTicks : UInt64 := 0
  requestTicks : UInt64 := 0
  discardIos : UInt64 := 0
  discardMerges : UInt64 := 0
  discardSectors : UInt64 := 0
  discardTicks : UInt64 := 0
  flushIos : UInt64 := 0
  flushTicks : UInt64 := 0
deriving DecidableEq, Repr

namespace BlockDeviceCounters

instance : Inhabited BlockDeviceCounters := ⟨{}⟩

def merge? (a b : BlockDeviceCounters) : Option BlockDeviceCounters := do
  return {
    readIos := ← add? a.readIos b.readIos
    readMerges := ← add? a.readMerges b.readMerges
    readSectors := ← add? a.readSectors b.readSectors
    readTicks := ← add? a.readTicks b.readTicks
    writeIos := ← add? a.writeIos b.writeIos
    writeMerges := ← add? a.writeMerges b.writeMerges
    writeSectors := ← add? a.writeSectors b.writeSectors
    writeTicks := ← add? a.writeTicks b.writeTicks
    currentIos := ← add? a.currentIos b.currentIos
    totalTicks := ← add? a.totalTicks b.totalTicks
    requestTicks := ← add? a.requestTicks b.requestTicks
    discardIos := ← add? a.discardIos b.discardIos
    discardMerges := ← add? a.discardMerges b.discardMerges
    discardSectors := ← add? a.discardSectors b.discardSectors
    discardTicks := ← add? a.discardTicks b.discardTicks
    flushIos := ← add? a.flushIos b.flushIos
    flushTicks := ← add? a.flushTicks b.flushTicks }

instance : Merge BlockDeviceCounters := ⟨{}, merge?⟩

def record : Record BlockDeviceCounters where
  default := {}
  isFlattened := false
  fields := [
    .plain "read_ios" .uint64 (·.readIos) (fun v c => { c with readIos := v }),
    .plain "read_merges" .uint64 (·.readMerges) (fun v c => { c with readMerges := v }),
    .plain "read_sectors" .uint64 (·.readSectors) (fun v c => { c with readSectors := v }),
    .plain "read_ticks" .uint64 (·.readTicks) (fun v c => { c with readTicks := v }),
    .plain "write_ios" .uint64 (·.writeIos) (fun v c => { c with writeIos := v }),
    .plain "write_merges" .uint64 (·.writeMerges) (fun v c => { c with writeMerges := v }),
    .plain "write_sectors" .uint64 (·.writeSectors) (fun v c => { c with writeSectors := v }),
    .plain "write_ticks" .uint64 (·.writeTicks) (fun v c => { c with writeTicks := v }),
    .plain "current_ios" .uint64 (·.currentIos) (fun v c => { c with currentIos := v }),
    .plain "total_ticks" .uint64 (·.totalTicks) (fun v c => { c with totalTicks := v }),
    .plain "req_ticks" .uint64 (·.requestTicks) (fun v c => { c with requestTicks := v }),
    .plain "discard_ios" .uint64 (·.discardIos) (fun v c => { c with discardIos := v }),
    .plain "discard_merges" .uint64 (·.discardMerges) (fun v c => { c with discardMerges := v }),
    .plain "discard_sectors" .uint64 (·.discardSectors) (fun v c => { c with discardSectors := v }),
    .plain "discard_ticks" .uint64 (·.discardTicks) (fun v c => { c with discardTicks := v }),
    .plain "flush_ios" .uint64 (·.flushIos) (fun v c => { c with flushIos := v }),
    .plain "flush_ticks" .uint64 (·.flushTicks) (fun v c => { c with flushTicks := v })]

def codec : Codec BlockDeviceCounters := record.codec

end BlockDeviceCounters

/-- The operations of the last minute, by name. -/
structure LastMinute where
  operations : KeyMap OperationTotals := .empty
deriving DecidableEq

namespace LastMinute

instance : Inhabited LastMinute := ⟨{}⟩

def merge? (a b : LastMinute) : Option LastMinute := do
  return { operations := ← Merge.byKey? a.operations b.operations }

instance : Merge LastMinute := ⟨{}, merge?⟩

def record : Record LastMinute where
  default := {}
  isFlattened := false
  fields := [
    .optionalMap "operations" OperationTotals.codec (·.operations) (fun v m => { m with operations := v })]

def codec : Codec LastMinute := record.codec

end LastMinute

/-- Metrics of one drive or of several merged. -/
structure DriveMetrics where
  collected : Timestamp := .zero
  /-- How many drives these are. -/
  drives : UInt64 := 0
  offline : UInt64 := 0
  healing : UInt64 := 0
  /-- Operations since the start, by name. -/
  lifeTime : KeyMap UInt64 := .empty
  lastMinute : LastMinute := {}
  device : BlockDeviceCounters := {}
deriving DecidableEq

namespace DriveMetrics

instance : Inhabited DriveMetrics := ⟨{}⟩

def merge? (a b : DriveMetrics) : Option DriveMetrics := do
  return {
    collected := a.collected.latest b.collected
    drives := ← add? a.drives b.drives
    offline := ← add? a.offline b.offline
    healing := ← add? a.healing b.healing
    lifeTime := ← Merge.sumByKey? a.lifeTime b.lifeTime
    lastMinute := ← a.lastMinute.merge? b.lastMinute
    device := ← a.device.merge? b.device }

instance : Merge DriveMetrics := ⟨{}, merge?⟩

def record : Record DriveMetrics where
  default := {}
  isFlattened := false
  fields := [
    .plain "collected" Timestamp.codec (·.collected) (fun v d => { d with collected := v }),
    .plain "n_disks" .uint64 (·.drives) (fun v d => { d with drives := v }),
    .counter "offline" (·.offline) (fun v d => { d with offline := v }),
    .counter "healing" (·.healing) (fun v d => { d with healing := v }),
    .optionalMap "life_time_ops" .uint64 (·.lifeTime) (fun v d => { d with lifeTime := v }),
    .plain "last_minute" LastMinute.codec (·.lastMinute) (fun v d => { d with lastMinute := v }),
    .plain "iostats" BlockDeviceCounters.codec (·.device) (fun v d => { d with device := v })]

def codec : Codec DriveMetrics := record.codec

end DriveMetrics

end ClusterMetrics
