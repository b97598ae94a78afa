import Mathlib
import ClusterMetrics.Calendar

/-! # Days and dates

Every day has a date that the calendar knows (`Date.isValid_ofDays`), and counting the days up to it gives the day
again (`Date.toDays_ofDays`). -/

namespace ClusterMetrics.Calendar

/-! ### Years -/

/-- The mean length of a year misses by one year at most. -/
theorem daysBeforeYear_guess (n : Int) : daysBeforeYear (n * 400 / 146097 + 1 - 1) ≤ n ∧
    n < daysBeforeYear (n * 400 / 146097 + 1 + 1 + 1) := by
  simp only [daysBeforeYear]
  omega

theorem daysBeforeYear_yearOfDay (n : Int) :
    daysBeforeYear (yearOfDay n) ≤ n ∧ n < daysBeforeYear (yearOfDay n + 1) := by
  obtain ⟨hlow, hhigh⟩ := daysBeforeYear_guess n
  rw [yearOfDay]
  split
  next h => exact ⟨hlow, by rwa [Int.sub_add_cancel]⟩
  split
  next h => exact ⟨h, hhigh⟩
  next h h' => exact ⟨Int.not_lt.1 h, Int.not_le.1 h'⟩

theorem isLeap_iff {year : Int} : isLeap year = true ↔ year % 4 = 0 ∧ (year % 100 ≠ 0 ∨ year % 400 = 0) := by
  simp [isLeap]

theorem sum_monthLengths (year : Int) : (monthLengths year).sum = if isLeap year then 366 else 365 := by
  rw [monthLengths]
  split <;> rfl

theorem daysBeforeYear_succ (year : Int) :
    daysBeforeYear (year + 1) = daysBeforeYear year + (monthLengths year).sum := by
  rw [sum_monthLengths]
  simp only [daysBeforeYear]
  split
  next h =>
    have h := isLeap_iff.1 h
    omega
  next h =>
    have h := mt isLeap_iff.2 h
    omega

/-! ### Months -/

theorem monthAndDay_spec {lengths : List Nat} (month : Nat) {n : Nat} (h : n < lengths.sum) : ∃ i d,
    monthAndDay lengths month n = (month + i, d + 1) ∧ i < lengths.length ∧ d < lengths.getD i 0 ∧
      (lengths.take i).sum + d = n := by
  induction lengths generalizing month n with
  | nil => cases h
  | cons l ls ih =>
    rw [monthAndDay]
    split
    next hn => exact ⟨0, n, rfl, Nat.succ_pos _, hn, Nat.zero_add n⟩
    next hn =>
      rw [List.sum_cons] at h
      obtain ⟨i, d, heq, hi, hd, hsum⟩ := ih (month + 1) (n := n - l) (by omega)
      refine ⟨i + 1, d, ?_, Nat.succ_lt_succ hi, hd, ?_⟩
      · rw [heq, Nat.add_right_comm, Nat.add_assoc]
      · rw [List.take_succ_cons, List.sum_cons]
        omega

namespace Date

theorem ofDays_spec (n : Int) : ∃ i d, ofDays n = ⟨yearOfDay n, 1 + i, d + 1⟩ ∧ i < 12 ∧
    d < (monthLengths (yearOfDay n)).getD i 0 ∧
    daysBeforeYear (yearOfDay n) + ((monthLengths (yearOfDay n)).take i).sum + d = n := by
  obtain ⟨hlow, hhigh⟩ := daysBeforeYear_yearOfDay n
  rw [daysBeforeYear_succ] at hhigh
  obtain ⟨i, d, heq, hi, hd, hsum⟩ := monthAndDay_spec 1
    (show (n - daysBeforeYear (yearOfDay n)).toNat < (monthLengths (yearOfDay n)).sum by omega)
  refine ⟨i, d, ?_, hi, hd, by omega⟩
  simp only [ofDays, heq]

theorem isValid_ofDays (n : Int) : (ofDays n).isValid = true := by
  obtain ⟨i, d, heq, hi, hd, -⟩ := ofDays_spec n
  simp only [heq, isValid, Nat.add_sub_cancel_left, Bool.and_eq_true, decide_eq_true_eq]
  omega

theorem toDays_ofDays (n : Int) : (ofDays n).toDays = n := by
  obtain ⟨i, d, heq, -, -, hsum⟩ := ofDays_spec n
  rw [heq, toDays, dayOfYear, Nat.add_sub_cancel_left, Nat.add_sub_cancel, ← List.sum_eq_foldl]
  show daysBeforeYear (yearOfDay n) + ((((monthLengths (yearOfDay n)).take i).sum + d : Nat) : Int) = n
  omega

theorem month_le_of_isValid {d : Date} (h : d.isValid = true) : d.month ≤ 12 := by
  simp only [isValid, Bool.and_eq_true, decide_eq_true_eq] at h
  exact h.1.1.2

theorem day_le_of_isValid {d : Date} (h : d.isValid = true) : d.day ≤ 31 := by
  simp only [isValid, Bool.and_eq_true, decide_eq_true_eq] at h
  have hlengths : ∀ l ∈ monthLengths d.year, l ≤ 31 := by
    rw [monthLengths]
    split <;> decide
  refine Nat.le_trans h.2 ?_
  rw [List.getD_eq_getElem?_getD]
  cases hget : (monthLengths d.year)[d.month - 1]? with
  | none => exact Nat.zero_le _
  | some l => exact hlengths l (List.mem_of_getElem? hget)

end Date

end ClusterMetrics.Calendar
