/-! # Natural numbers in decimal

A number is written without leading zeros and read from ASCII digits alone, leading zeros allowed:
reading a written number gives it back. -/

namespace ClusterMetrics.Text

/-- The digits of `n`, without leading zeros; `0` for zero. -/
def decimal (n : Nat) : List Char := Nat.toDigits 10 n

/-- The number that ASCII digits stand for, at least one of them. -/
def readDecimal? (cs : List Char) : Option Nat :=
  if !cs.isEmpty && cs.all Char.isDigit then some (Nat.ofDigitChars 10 cs 0) else none

/-- The number that ASCII digits stand for, if it is below `limit`. -/
def readDecimalBelow? (limit : Nat) (cs : List Char) : Option Nat :=
  (readDecimal? cs).filter (· < limit)

/-- The last `width` digits of `n`, leading zeros included. -/
def decimalPadded (width n : Nat) : List Char := List.leftpad width '0' (decimal n)

theorem all_isDigit_decimal (n : Nat) : (decimal n).all Char.isDigit = true := by
  induction n using Nat.strongRecOn with
  | _ n ih =>
    have digit : ∀ d, d < 10 → (Nat.digitChar d).isDigit = true := by decide
    rw [decimal, Nat.toDigits_eq_if (by omega)]
    split
    · simp [digit n ‹_›]
    · have := ih (n / 10) (by omega)
      rw [decimal] at this
      simp [this, digit (n % 10) (by omega)]

theorem readDecimal?_decimal (n : Nat) : readDecimal? (decimal n) = some n := by
  have h : decimal n ≠ [] := Nat.toDigits_ne_nil
  rw [readDecimal?, if_pos (by simp [h, all_isDigit_decimal])]
  exact congrArg some Nat.ofDigitChars_ten_toDigits

theorem readDecimalBelow?_decimal {limit n : Nat} (h : n < limit) :
    readDecimalBelow? limit (decimal n) = some n := by
  simp [readDecimalBelow?, readDecimal?_decimal, h]

end ClusterMetrics.Text
