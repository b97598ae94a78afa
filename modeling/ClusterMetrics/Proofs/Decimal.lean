import Mathlib
import ClusterMetrics.Text.Decimal

/-! # The digits of natural numbers

A number in decimal is made of digits, the first of them no zero unless it is the only one. Padded to a width that has
room for it, it takes exactly that width and is still read as the number. Exactly the texts of digits are read
(`readDecimal?_eq_some_iff`). -/

namespace ClusterMetrics.Text
variable {width n : Nat} {c : Char}

theorem isDigit_of_mem_decimal (h : c ∈ decimal n) : c.isDigit = true := List.all_eq_true.1 (all_isDigit_decimal n) c h

theorem decimal_ne_nil (n : Nat) : decimal n ≠ [] := Nat.toDigits_ne_nil

theorem decimal_eq_cons (h : n ≠ 0) : ∃ d ds, decimal n = d :: ds ∧ d ≠ '0' := by
  have hdigit : ∀ d, d < 10 → d ≠ 0 → Nat.digitChar d ≠ '0' := by decide
  induction n using Nat.strongRecOn with
  | _ n ih =>
    rw [decimal, Nat.toDigits_eq_if (by omega)]
    split
    · exact ⟨_, [], rfl, hdigit n ‹_› h⟩
    · obtain ⟨d, ds, heq, hd⟩ := ih (n / 10) (by omega) (by omega)
      rw [decimal] at heq
      rw [heq]
      exact ⟨d, _, rfl, hd⟩

theorem isDigit_of_mem_zeros (h : c ∈ List.replicate n '0') : c.isDigit = true := by
  rw [List.eq_of_mem_replicate h]
  rfl

theorem isDigit_of_mem_decimalPadded (h : c ∈ decimalPadded width n) : c.isDigit = true := by
  rw [decimalPadded, List.leftpad, List.mem_append] at h
  exact h.elim isDigit_of_mem_zeros isDigit_of_mem_decimal

theorem length_decimalPadded (hw : 0 < width) (h : n < 10 ^ width) : (decimalPadded width n).length = width := by
  have hlength : (decimal n).length ≤ width := (Nat.length_toDigits_le_iff (by decide) hw).2 h
  rw [decimalPadded, List.length_leftpad, Nat.max_eq_left hlength]

theorem toNat_of_isDigit (h : c.isDigit = true) : '0'.toNat ≤ c.toNat ∧ c.toNat ≤ '9'.toNat := by
  rw [Char.isDigit, Bool.and_eq_true, decide_eq_true_eq, decide_eq_true_eq] at h
  exact ⟨UInt32.le_iff_toNat_le.1 h.1, UInt32.le_iff_toNat_le.1 h.2⟩

theorem ofDigitChars_lt {ds : List Char} (h : ∀ c ∈ ds, c.isDigit = true) :
    Nat.ofDigitChars 10 ds 0 < 10 ^ ds.length := by
  induction ds with
  | nil => decide
  | cons d ds ih =>
    obtain ⟨hd, hds⟩ := List.forall_mem_cons.1 h
    have hrest := ih hds
    have hvalue : d.toNat - '0'.toNat ≤ 9 := Nat.sub_le_of_le_add (toNat_of_isDigit hd).2
    rw [Nat.ofDigitChars_cons, Nat.mul_zero, Nat.zero_add, Nat.ofDigitChars_eq_ofDigitChars_zero, List.length_cons,
      Nat.pow_succ]
    have hmul : 10 ^ ds.length * (d.toNat - '0'.toNat) ≤ 10 ^ ds.length * 9 := Nat.mul_le_mul_left _ hvalue
    omega

theorem ofDigitChars_zeros (k : Nat) : Nat.ofDigitChars 10 (List.replicate k '0') 0 = 0 := by
  induction k with
  | zero => rfl
  | succ k ih => exact ih

/-- Digits, at least one of them. -/
def IsDigits (cs : List Char) : Prop := cs ≠ [] ∧ ∀ c ∈ cs, c.isDigit = true

theorem isDigits_iff {cs : List Char} : IsDigits cs ↔ (!cs.isEmpty && cs.all Char.isDigit) = true := by
  rw [Bool.and_eq_true, List.all_eq_true, Bool.not_eq_true', List.isEmpty_eq_false_iff]
  rfl

instance (cs : List Char) : Decidable (IsDigits cs) := decidable_of_iff _ isDigits_iff.symm

theorem readDecimal?_of_isDigits {cs : List Char} (h : IsDigits cs) :
    readDecimal? cs = some (Nat.ofDigitChars 10 cs 0) := if_pos (isDigits_iff.1 h)

theorem readDecimal?_of_not_isDigits {cs : List Char} (h : ¬ IsDigits cs) : readDecimal? cs = none :=
  if_neg (mt isDigits_iff.2 h)

theorem readDecimal?_eq_some_iff {cs : List Char} :
    readDecimal? cs = some n ↔ IsDigits cs ∧ Nat.ofDigitChars 10 cs 0 = n := by
  by_cases h : IsDigits cs
  · rw [readDecimal?_of_isDigits h, Option.some_inj, and_iff_right h]
  · rw [readDecimal?_of_not_isDigits h]
    exact iff_of_false nofun fun hdigits => h hdigits.1

theorem ofDigitChars_decimalPadded : Nat.ofDigitChars 10 (decimalPadded width n) 0 = n := by
  rw [decimalPadded, List.leftpad, Nat.ofDigitChars_append, ofDigitChars_zeros]
  exact Nat.ofDigitChars_ten_toDigits

end ClusterMetrics.Text
