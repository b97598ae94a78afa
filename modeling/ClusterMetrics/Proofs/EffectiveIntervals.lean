import Mathlib
import ClusterMetrics.Proofs.Queries
import ClusterMetrics.Proofs.QueryFields

/-! # The interval in force

A server keeps whole seconds. For the interval of an accepted request that is the least number of them, from one on,
that is no shorter (`Request.effectiveInterval?_of_accepted`). An interval beyond the last whole second of the range
has none, though a query can ask for it as for any other (`Request.exists_accepted`). -/

namespace ClusterMetrics.Request
variable {r : Request} {d : Duration} {s : Nat}

/-! ### Whole seconds -/

/-- Seconds, from one on, that are no shorter than the duration. -/
def Covers (d : Duration) (s : Nat) : Prop := 1 ≤ s ∧ d.nanoseconds ≤ s * 10 ^ 9

theorem isLeast_covers (d : Duration) : IsLeast {s | Covers d s} (max ((d.nanoseconds + 999999999) / 1000000000) 1) := by
  constructor
  · refine ⟨Nat.le_max_right .., ?_⟩
    omega
  · rintro s ⟨hone, hlong⟩
    omega

theorem ofSeconds?_eq_some_iff : Duration.ofSeconds? s = some d ↔ d.nanoseconds = s * 10 ^ 9 := by
  constructor
  · exact Duration.nanoseconds_of_ofNanoseconds?
  · intro h
    have hlt := d.nanoseconds_lt
    rw [h] at hlt
    refine (dif_pos hlt).trans (congrArg some ?_)
    exact Duration.ext h.symm

theorem effectiveInterval?_eq_some_iff :
    r.effectiveInterval? = some d ↔ ∃ s, IsLeast {s | Covers r.interval s} s ∧ d.nanoseconds = s * 10 ^ 9 := by
  rw [effectiveInterval?, ofSeconds?_eq_some_iff]
  constructor
  · exact fun h => ⟨_, isLeast_covers r.interval, h⟩
  · rintro ⟨s, hs, h⟩
    rw [← hs.unique (isLeast_covers r.interval), h]

/-- The last whole second of the range can be kept, and nothing beyond it. -/
theorem exists_effectiveInterval?_iff :
    (∃ d, r.effectiveInterval? = some d) ↔ r.interval.nanoseconds ≤ (2 ^ 64 - 1) * 10 ^ 9 := by
  simp only [effectiveInterval?, ofSeconds?_eq_some_iff]
  constructor
  · rintro ⟨d, h⟩
    have hlt := d.nanoseconds_lt
    omega
  · intro h
    exact ⟨⟨_, by omega⟩, rfl⟩

/-! ### Step by step -/

/-- The seconds of a duration, in 64 bits, and one more if a part of a second is left. -/
def roundedUp? (d : Duration) : Option Nat :=
  if 0 < d.subsecond then if d.seconds + 1 < 2 ^ 64 then some (d.seconds + 1) else none else some d.seconds

/-- The interval in force, rounded up before it is compared with the shortest one. -/
def effectiveBySteps? (r : Request) : Option Duration := do
  let d ← Duration.ofSeconds? (← roundedUp? r.interval)
  return if d.nanoseconds < leastInterval.nanoseconds then leastInterval else d

theorem ofSeconds?_eq_none_iff : Duration.ofSeconds? s = none ↔ 2 ^ 64 ≤ s := by
  unfold Duration.ofSeconds? Duration.ofNanoseconds?
  split <;> simp <;> omega

theorem roundedUp?_eq (d : Duration) : roundedUp? d =
    if (d.nanoseconds + 999999999) / 1000000000 < 2 ^ 64 then some ((d.nanoseconds + 999999999) / 1000000000)
    else none := by
  have hlt := d.seconds_lt
  have hsum := d.nanoseconds_eq
  have hrest : d.subsecond < 1000000000 := Nat.mod_lt _ (by decide)
  unfold roundedUp?
  split
  next hpart =>
    have hup : (d.nanoseconds + 999999999) / 1000000000 = d.seconds + 1 := by omega
    rw [hup]
  next hwhole =>
    have hup : (d.nanoseconds + 999999999) / 1000000000 = d.seconds := by omega
    rw [hup]
    exact (if_pos hlt).symm

theorem leastInterval_nanoseconds : leastInterval.nanoseconds = 1000000000 := rfl

theorem effectiveBySteps?_eq (r : Request) : r.effectiveBySteps? = r.effectiveInterval? := by
  unfold effectiveBySteps? effectiveInterval?
  rw [roundedUp?_eq]
  generalize (r.interval.nanoseconds + 999999999) / 1000000000 = up
  by_cases hup : up < 2 ^ 64
  · have hns : up * 1000000000 < 0x10000000000000000 * 1000000000 := by omega
    have hd : Duration.ofSeconds? up = some ⟨up * 1000000000, hns⟩ := dif_pos hns
    rw [if_pos hup]
    by_cases hone : 1 ≤ up
    · have hlong : ¬ up * 1000000000 < leastInterval.nanoseconds := by rw [leastInterval_nanoseconds]; omega
      rw [max_eq_left hone, hd, Option.bind_eq_bind, Option.bind_some, hd]
      exact congrArg some (if_neg hlong)
    · have hzero : up = 0 := by omega
      subst hzero
      decide
  · have hone : 1 ≤ up := by omega
    rw [if_neg hup, max_eq_left hone, ofSeconds?_eq_none_iff.mpr (by omega)]
    rfl

/-! ### Accepted requests -/

/-- The pairs of a query string. -/
def pairsOf (query : String) : List (String × String) :=
  Form.decode <| match query.toList with
    | '?' :: cs => cs
    | cs => cs

theorem parse_eq (query : String) : parse query = ofPairs (pairsOf query) := rfl

/-- Every interval can be asked for. -/
theorem exists_accepted (d : Duration) : ∃ query r, parse query = .ok r ∧ r.interval = d :=
  ⟨_, _, parse_queryString { default with interval := d }, rfl⟩

/-- The interval of an accepted request is what the last value with its key says, or one second. The interval in force
exists if that is at most the last whole second of the range, and is then the least whole number of seconds, from one
on, that is no shorter. -/
theorem effectiveInterval?_of_accepted {query : String} (h : parse query = .ok r) :
    (match lastValue? "interval" (pairsOf query) with
      | some value => IsSpan value r.interval
      | none => r.interval = leastInterval) ∧
    r.effectiveBySteps? = r.effectiveInterval? ∧
    ((∃ d, r.effectiveInterval? = some d) ↔ r.interval.nanoseconds ≤ (2 ^ 64 - 1) * 10 ^ 9) ∧
    ∀ d, r.effectiveInterval? = some d ↔ ∃ s, IsLeast {s | Covers r.interval s} s ∧ d.nanoseconds = s * 10 ^ 9 := by
  rw [parse_eq] at h
  exact ⟨decides_of_ofPairs h .interval, effectiveBySteps?_eq r, exists_effectiveInterval?_iff, fun d =>
    effectiveInterval?_eq_some_iff⟩

/-- A second and a half, asked for with other options. -/
def halfSeconds : Request := { default with samples := 3, interval := ⟨1500000000, by decide⟩ }

/-- It is rounded up to two seconds. -/
theorem isLeast_covers_halfSeconds : parse "?interval=1.5s&n=3" = .ok halfSeconds ∧
    IsSpan "1.5s" halfSeconds.interval ∧ IsLeast {s | Covers halfSeconds.interval s} 2 := by
  have hread : parse "?interval=1.5s&n=3" = .ok halfSeconds := by decide +kernel
  have hlast : lastValue? "interval" (pairsOf "?interval=1.5s&n=3") = some "1.5s" := by decide +kernel
  obtain ⟨hspan, -, -, hinForce⟩ := effectiveInterval?_of_accepted hread
  rw [hlast] at hspan
  obtain ⟨s, hleast, hs⟩ := (hinForce ⟨2000000000, by decide⟩).1 (by decide +kernel)
  have htwo : s = 2 := by
    have hs' : 2000000000 = s * 10 ^ 9 := hs
    omega
  exact ⟨hread, hspan, htwo ▸ hleast⟩

/-- The last second of the range and a nanosecond cannot be rounded up. -/
theorem exists_without_effectiveInterval :
    ∃ r, parse "interval=18446744073709551615.000000001s" = .ok r ∧ r.effectiveInterval? = none :=
  ⟨{ default with interval := ⟨18446744073709551615000000001, by decide⟩ }, by decide +kernel, by decide +kernel⟩

end ClusterMetrics.Request
