import ClusterMetrics.Binary64
import ClusterMetrics.Duration

/-! # Latency summaries

A summary of samples by their mean, their spread and some of their ranks. It is computed from the
samples in ascending order, so it does not depend on the order in which they came. -/

namespace ClusterMetrics

/-- All zero for no samples. -/
structure LatencySummary where
  mean : Duration
  p50 : Duration
  p75 : Duration
  p95 : Duration
  p99 : Duration
  p999 : Duration
  /-- The mean of the slowest twentieth. -/
  slowest : Duration
  /-- The mean of the fastest twentieth. -/
  fastest : Duration
  max : Duration
  min : Duration
  /-- The standard deviation of the samples as a whole population. -/
  deviation : Duration
  range : Duration
deriving DecidableEq, Repr

namespace LatencySummary

def zero : LatencySummary :=
  { mean := .zero, p50 := .zero, p75 := .zero, p95 := .zero, p99 := .zero, p999 := .zero,
    slowest := .zero, fastest := .zero, max := .zero, min := .zero, deviation := .zero, range := .zero }

instance : Inhabited LatencySummary := ⟨zero⟩

end LatencySummary

namespace Latency

/-- A share of `n` in thousandths, rounded to the nearest whole number and up at half. -/
def roundedShare (n thousandths : Nat) : Nat := (n * thousandths + 500) / 1000

/-- The position in `n` ascending samples below which a share of them lies. -/
def rank (n thousandths : Nat) : Nat := Nat.min (roundedShare n thousandths - 1) (n - 1)

/-- The mean in whole nanoseconds, as far as they fit 64 bits. -/
def mean (ds : List Duration) : Duration :=
  let sum := ds.foldl (fun sum d => sum + d.nanoseconds) 0
  .ofNanoseconds (UInt64.ofNat (Nat.min (sum / ds.length) 0xFFFFFFFFFFFFFFFF))

/-- The deviation from `mean`, in double precision with the samples in the order given. -/
def deviation (ds : List Duration) (mean : Duration) : Duration :=
  let center := Binary64.ofNat mean.nanoseconds
  let squares := ds.map fun d =>
    let diff := (Binary64.ofNat d.nanoseconds).sub center
    diff.mul diff
  let variance := (squares.foldl Binary64.add .zero).div (Binary64.ofNat ds.length)
  .ofNanoseconds variance.sqrt.toUInt64

def sub (d e : Duration) : Duration :=
  ⟨d.nanoseconds - e.nanoseconds, Nat.lt_of_le_of_lt (Nat.sub_le ..) d.nanoseconds_lt⟩

def ascending (ds : List Duration) : List Duration :=
  ds.mergeSort fun d e => d.nanoseconds ≤ e.nanoseconds

/-- The summary of samples in ascending order. -/
def summarizeAscending (s : List Duration) : LatencySummary :=
  match s with
  | [] => .zero
  | least :: _ =>
    let n := s.length
    let nth (i : Nat) : Duration := s[i]?.getD .zero
    let greatest := nth (n - 1)
    let slow := s.drop (roundedShare n 950)
    let fast := s.take (roundedShare n 50)
    let average := mean s
    { mean := average
      p50 := nth (n / 2)
      p75 := nth (rank n 750)
      p95 := nth (rank n 950)
      p99 := nth (rank n 990)
      p999 := nth (rank n 999)
      slowest := if 1 < slow.length then mean slow else greatest
      fastest := if 1 < fast.length then mean fast else least
      max := greatest
      min := least
      deviation := deviation s average
      range := sub greatest least }

end Latency

/-- Samples collected so far, in the order they came or were last sorted into. -/
structure LatencySamples where
  durations : List Duration
deriving DecidableEq, Repr

namespace LatencySamples

def empty : LatencySamples := ⟨[]⟩

def size (s : LatencySamples) : Nat := s.durations.length

def push (s : LatencySamples) (d : Duration) : LatencySamples := ⟨s.durations ++ [d]⟩

def append (s : LatencySamples) (ds : List Duration) : LatencySamples := ⟨s.durations ++ ds⟩

/-- The samples in ascending order. -/
def sorted (s : LatencySamples) : LatencySamples := ⟨Latency.ascending s.durations⟩

def summary (s : LatencySamples) : LatencySummary := Latency.summarizeAscending s.sorted.durations

/-- The summary, and the samples as they are left in ascending order. -/
def measure (s : LatencySamples) : LatencySummary × LatencySamples := (s.summary, s.sorted)

end LatencySamples

end ClusterMetrics
