import ClusterMetrics.Binary64

/-! # Doubles that are numbers

A double is equal to itself unless it is `nan`, and products and quotients of numbers with one that is neither zero nor
infinite are none (`mul_ne_nan`, `div_ne_nan`). Adding zero to a number changes nothing but the sign of a zero, and
what equality ignores. -/

namespace ClusterMetrics

namespace Binary64
variable {x y : Binary64}

theorem numEq_self_iff : x.numEq x = true ↔ x ≠ nan := by
  cases x <;> simp [numEq]

theorem ofUnits_ne_nan (negative : Bool) (num den : Nat) : ofUnits negative num den ≠ nan := by
  have hparts : ∀ m e, ofParts negative m e ≠ nan := by
    intro m e
    unfold ofParts; split <;> exact Binary64.noConfusion
  unfold ofUnits; dsimp only
  split <;> exact hparts _ _

/-! ### Products and quotients -/

/-- Whether it is neither zero nor infinite. -/
def isScale : Binary64 → Bool
  | finite y => y.units != 0
  | infinite _ => false
  | nan => false

theorem exists_units_of_isScale (h : x.isScale = true) : ∃ y, x = finite y ∧ y.units ≠ 0 := by
  cases x with
  | finite y => exact ⟨y, rfl, bne_iff_ne.1 h⟩
  | infinite s => cases h
  | nan => cases h

theorem mul_ne_nan (hy : y.isScale = true) (h : x ≠ nan) : x.mul y ≠ nan := by
  obtain ⟨y, rfl, hunits⟩ := exists_units_of_isScale hy
  cases x with
  | finite x =>
    unfold mul; dsimp only
    exact ofUnits_ne_nan _ _ _
  | infinite s =>
    unfold mul; dsimp only
    rw [if_neg hunits]
    exact Binary64.noConfusion
  | nan => exact absurd rfl h

theorem div_ne_nan (hy : y.isScale = true) (h : x ≠ nan) : x.div y ≠ nan := by
  obtain ⟨y, rfl, hunits⟩ := exists_units_of_isScale hy
  cases x with
  | finite x =>
    unfold div; dsimp only
    rw [if_neg hunits]
    exact ofUnits_ne_nan _ _ _
  | infinite s => exact Binary64.noConfusion
  | nan => exact absurd rfl h

/-! ### Adding zero -/

theorem nearestEven_mul {den : Nat} (n : Nat) (h : 0 < den) : nearestEven (n * den) den = n := by
  unfold nearestEven
  rw [Nat.mul_mod_left, Nat.mul_div_cancel _ h, if_pos (by omega)]

/-- A number that exists rounds to itself. -/
theorem ofUnits_units (x : FiniteBinary64) (h : x.units ≠ 0) : ofUnits x.negative x.units 1 = finite x := by
  obtain ⟨negative, m, e, hm, hn, he⟩ := x
  have hunits : FiniteBinary64.units ⟨negative, m, e, hm, hn, he⟩ = m * 2 ^ e := rfl
  have hm0 : m ≠ 0 := by
    rintro rfl
    exact h (by rw [hunits, Nat.zero_mul])
  have hpos : 0 < 2 ^ e := Nat.two_pow_pos e
  have hlog : (m * 2 ^ e).log2 = m.log2 + e := by
    rw [Nat.log2_eq_iff (Nat.mul_ne_zero hm0 (Nat.ne_of_gt hpos))]
    constructor
    · rw [Nat.pow_add]
      exact Nat.mul_le_mul_right _ (Nat.log2_self_le hm0)
    · rw [Nat.add_right_comm, Nat.pow_add]
      exact Nat.mul_lt_mul_of_pos_right Nat.lt_log2_self hpos
  have hexp : (m * 2 ^ e).log2 + 1 - 53 = e := by
    have hlt : m.log2 < 53 := (Nat.log2_lt hm0).2 hm
    rcases hn with rfl | hn
    · omega
    · have hge : 52 ≤ m.log2 := (Nat.le_log2 hm0).2 hn
      omega
  unfold ofUnits; dsimp only
  rw [hunits, Nat.div_one, hexp, Nat.one_mul, show Nat.pow 2 e = 2 ^ e from rfl, nearestEven_mul m hpos,
    if_neg (by omega)]
  exact dif_pos ⟨hm, hn, he⟩

theorem signedUnits_zero (negative : Bool) : (FiniteBinary64.zero negative).signedUnits = 0 := by
  cases negative <;> rfl

theorem sign_signedUnits {x : FiniteBinary64} (h : x.signedUnits ≠ 0) :
    decide (x.signedUnits < 0) = x.negative ∧ x.signedUnits.natAbs = x.units ∧ x.units ≠ 0 := by
  unfold FiniteBinary64.signedUnits at *
  split at h <;> simp_all
  omega

/-- A sum that comes to the units of `x` is `x` as a number. -/
theorem numEq_of_signedUnits {x y z : FiniteBinary64} (h : y.signedUnits + z.signedUnits = x.signedUnits) :
    ((finite y).add (finite z)).numEq (finite x) = true := by
  unfold add; dsimp only
  rw [h]
  split
  next h0 => simp [numEq, signedUnits_zero, h0]
  next h0 =>
    obtain ⟨hsign, habs, hunits⟩ := sign_signedUnits h0
    rw [hsign, habs, ofUnits_units x hunits]
    exact beq_self_eq_true _

theorem numEq_add_zero (h : x.numEq x = true) : (x.add .zero).numEq x = true := by
  cases x with
  | finite x => exact numEq_of_signedUnits (Int.add_zero _)
  | infinite s => exact beq_self_eq_true s
  | nan => cases h

theorem numEq_zero_add (h : x.numEq x = true) : (Binary64.zero.add x).numEq x = true := by
  cases x with
  | finite x => exact numEq_of_signedUnits (Int.zero_add _)
  | infinite s => exact beq_self_eq_true s
  | nan => cases h

end Binary64

end ClusterMetrics
