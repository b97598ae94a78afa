/-! # The Gregorian calendar

Days are counted from the first of January of the year 1, and the calendar is extended to all years
before and after. -/

namespace ClusterMetrics.Calendar

structure Date where
  year : Int
  /-- From 1 to 12. -/
  month : Nat
  /-- From 1. -/
  day : Nat
deriving DecidableEq, Repr

def isLeap (year : Int) : Bool := year % 4 == 0 && (year % 100 != 0 || year % 400 == 0)

def monthLengths (year : Int) : List Nat :=
  [31, if isLeap year then 29 else 28, 31, 30, 31, 30, 31, 31, 30, 31, 30, 31]

/-- Whether the month has the day. -/
def Date.isValid (d : Date) : Bool :=
  1 ≤ d.month && d.month ≤ 12 && 1 ≤ d.day && d.day ≤ (monthLengths d.year).getD (d.month - 1) 0

/-- The days before the first of January of `year`. -/
def daysBeforeYear (year : Int) : Int :=
  let past := year - 1
  365 * past + past / 4 - past / 100 + past / 400

/-- The days of a year before its date `d`. -/
def Date.dayOfYear (d : Date) : Nat :=
  ((monthLengths d.year).take (d.month - 1)).foldl (· + ·) 0 + (d.day - 1)

def Date.toDays (d : Date) : Int := daysBeforeYear d.year + d.dayOfYear

/-- The year in which day `n` lies. The mean length of a year gives it, or one next to it. -/
def yearOfDay (n : Int) : Int :=
  let guess := n * 400 / 146097 + 1
  if n < daysBeforeYear guess then guess - 1
  else if daysBeforeYear (guess + 1) ≤ n then guess + 1
  else guess

/-- The month and day of the `n`th day after the start of the first month. -/
def monthAndDay (lengths : List Nat) (month n : Nat) : Nat × Nat :=
  match lengths with
  | [] => (month, n + 1)
  | l :: ls => if n < l then (month, n + 1) else monthAndDay ls (month + 1) (n - l)

def Date.ofDays (n : Int) : Date :=
  let year := yearOfDay n
  let (month, day) := monthAndDay (monthLengths year) 1 (n - daysBeforeYear year).toNat
  ⟨year, month, day⟩

/-- The days before the first of January 1970. -/
def unixEpoch : Int := 719162

end ClusterMetrics.Calendar
