import ClusterMetrics.Binary64

/-! # Sums that stay in range

Counters are fixed-width numbers. A sum that leaves their range is no number; it never wraps. Sums of
doubles always exist. -/

namespace ClusterMetrics

/-- Addition that has no result when the sum leaves the range of the type. -/
class CheckedAdd (α : Type) where
  zero : α
  add? : α → α → Option α

namespace CheckedAdd

instance : CheckedAdd UInt64 where
  zero := 0
  add? a b := if a.toNat + b.toNat < 0x10000000000000000 then some (a + b) else none

instance : CheckedAdd Int64 where
  zero := 0
  add? a b :=
    if -0x8000000000000000 ≤ a.toInt + b.toInt ∧ a.toInt + b.toInt < 0x8000000000000000 then some (a + b) else none

instance : CheckedAdd Binary64 where
  zero := .zero
  add? a b := some (a.add b)

/-- Sums in pairs, for as long as both lists last; what is left of the first stays. -/
def addPairwise? [CheckedAdd α] : List α → List α → Option (List α)
  | a :: as, b :: bs => do return (← add? a b) :: (← addPairwise? as bs)
  | as, _ => some as

end CheckedAdd

end ClusterMetrics
