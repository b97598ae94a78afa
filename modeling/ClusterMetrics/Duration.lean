/-! # Spans of time -/

namespace ClusterMetrics

/-- A span of time in whole nanoseconds, shorter than `2 ^ 64` seconds. -/
structure Duration where
  nanoseconds : Nat
  nanoseconds_lt : nanoseconds < 0x10000000000000000 * 1000000000
deriving DecidableEq, Repr

namespace Duration

def zero : Duration := ⟨0, by decide⟩

instance : Inhabited Duration := ⟨zero⟩

@[ext] theorem ext {d e : Duration} (h : d.nanoseconds = e.nanoseconds) : d = e := by
  cases d; cases e; subst h; rfl

/-- Whole seconds. -/
def seconds (d : Duration) : Nat := d.nanoseconds / 1000000000

/-- The nanoseconds past the last whole second. -/
def subsecond (d : Duration) : Nat := d.nanoseconds % 1000000000

theorem seconds_lt (d : Duration) : d.seconds < 0x10000000000000000 :=
  Nat.div_lt_of_lt_mul (by have := d.nanoseconds_lt; omega)

theorem nanoseconds_eq (d : Duration) : d.nanoseconds = d.seconds * 1000000000 + d.subsecond := by
  have := Nat.div_add_mod d.nanoseconds 1000000000
  simp only [seconds, subsecond]; omega

def ofNanoseconds? (n : Nat) : Option Duration :=
  if h : n < 0x10000000000000000 * 1000000000 then some ⟨n, h⟩ else none

/-- A span whose nanoseconds fit 64 bits. -/
def ofNanoseconds (n : UInt64) : Duration := ⟨n.toNat, by have := n.toNat_lt; omega⟩

def ofSeconds? (n : Nat) : Option Duration := ofNanoseconds? (n * 1000000000)

/-- The nanoseconds, or the largest 64-bit number if they exceed it. -/
def saturatedNanoseconds (d : Duration) : UInt64 := UInt64.ofNat (min d.nanoseconds 0xFFFFFFFFFFFFFFFF)

end Duration

end ClusterMetrics
