import ClusterMetrics.Json.Record
import ClusterMetrics.Merge
import ClusterMetrics.NumEq

/-! # The runtime of the server processes -/

namespace ClusterMetrics
open CheckedAdd (add?)

/-- How often a quantity lay between two neighbouring boundaries. -/
structure Histogram where
  counts : List UInt64 := []
  boundaries : List Binary64 := []
deriving DecidableEq, Repr

namespace Histogram

instance : Inhabited Histogram := ⟨{}⟩

/-- Histograms are added up if they have equally many boundaries; otherwise the first stays, unless it
has none. -/
def merge? (a b : Histogram) : Option Histogram :=
  if a.boundaries.isEmpty then some b
  else if a.boundaries.length = b.boundaries.length then do
    return { a with counts := ← CheckedAdd.addPairwise? a.counts b.counts }
  else some a

instance : Merge Histogram := ⟨{}, merge?⟩

def numEq (a b : Histogram) : Bool :=
  a.counts == b.counts && NumEq.numEq a.boundaries b.boundaries

instance : NumEq Histogram := ⟨numEq⟩

def record : Record Histogram where
  default := {}
  isFlattened := false
  fields := [
    .plain "Counts" Codec.uint64.list.orDefault (·.counts) (fun v h => { h with counts := v }),
    .plain "Buckets" Codec.double.list.orDefault (·.boundaries) (fun v h => { h with boundaries := v })]

def codec : Codec Histogram := record.codec

end Histogram

structure RuntimeMetrics where
  integers : KeyMap UInt64 := .empty
  doubles : KeyMap Binary64 := .empty
  histograms : KeyMap Histogram := .empty
  /-- How many processes these are. -/
  count : Int64 := 0
deriving DecidableEq

namespace RuntimeMetrics

instance : Inhabited RuntimeMetrics := ⟨{}⟩

def merge? (a b : RuntimeMetrics) : Option RuntimeMetrics := do
  return {
    integers := ← Merge.sumByKey? a.integers b.integers
    doubles := ← Merge.sumByKey? a.doubles b.doubles
    histograms := ← Merge.byKey? a.histograms b.histograms
    count := ← add? a.count b.count }

instance : Merge RuntimeMetrics := ⟨{}, merge?⟩

def numEq (a b : RuntimeMetrics) : Bool :=
  a.integers == b.integers && NumEq.numEq a.doubles b.doubles &&
    NumEq.numEq a.histograms b.histograms && a.count == b.count

instance : NumEq RuntimeMetrics := ⟨numEq⟩

def record : Record RuntimeMetrics where
  default := {}
  isFlattened := false
  fields := [
    .optionalMap "uintMetrics" .uint64 (·.integers) (fun v m => { m with integers := v }),
    .optionalMap "floatMetrics" .double (·.doubles) (fun v m => { m with doubles := v }),
    .optionalMap "histMetrics" Histogram.codec (·.histograms) (fun v m => { m with histograms := v }),
    .plain "n" .int64 (·.count) (fun v m => { m with count := v })]

def codec : Codec RuntimeMetrics := record.codec

end RuntimeMetrics

end ClusterMetrics
