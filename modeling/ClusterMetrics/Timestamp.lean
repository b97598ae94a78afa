import ClusterMetrics.Calendar

/-! # When something was collected -/

namespace ClusterMetrics

/-- An instant as seconds since 1970 and nanoseconds past them. In a leap second, which follows the
last second of a minute, the nanoseconds go on from `10 ^ 9`. -/
structure Instant where
  seconds : Int
  nanoseconds : Nat
deriving DecidableEq, Repr

def Instant.lt (a b : Instant) : Bool :=
  a.seconds < b.seconds || (a.seconds == b.seconds && a.nanoseconds < b.nanoseconds)

/-- The day on which an instant lies. -/
def Instant.date (i : Instant) : Calendar.Date :=
  .ofDays (i.seconds / 86400 + Calendar.unixEpoch)

/-- An instant, or `zero` for never, which is before all instants. -/
inductive Timestamp where
  | zero
  | instant (i : Instant)
deriving DecidableEq, Repr

namespace Timestamp

instance : Inhabited Timestamp := ⟨zero⟩

def isZero : Timestamp → Bool
  | zero => true
  | instant _ => false

def lt : Timestamp → Timestamp → Bool
  | _, zero => false
  | zero, instant _ => true
  | instant a, instant b => a.lt b

def order (a b : Timestamp) : Ordering :=
  if a.lt b then .lt else if b.lt a then .gt else .eq

def latest (a b : Timestamp) : Timestamp := if a.lt b then b else a

/-- The instant that many seconds after 1970, or `zero` if it is out of range. -/
def ofUnixSeconds (seconds : Int) : Timestamp :=
  if -8334601228800 ≤ seconds ∧ seconds ≤ 8210266876799 then instant ⟨seconds, 0⟩ else zero

end Timestamp

end ClusterMetrics
