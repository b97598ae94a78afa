import Mathlib
import ClusterMetrics.Proofs.Binary64

/-! # Rounding is monotone

A ratio is rounded to a whole number of units (`roundUnits`), which is infinite from a limit on (`ofUnits_cases`). The
larger of two ratios is not rounded to the smaller number of units (`roundUnits_mono`), so what is not infinite bounds
all that is smaller (`isInfinite_mul_ofNat`). -/

namespace ClusterMetrics.Binary64

/-! ### Two ratios -/

section
variable {num den num' den' : Nat}

theorem div_le_div_of_mul_le (hden : 0 < den) (hden' : 0 < den') (h : num * den' ≤ num' * den) :
    num / den ≤ num' / den' := by
  rw [Nat.le_div_iff_mul_le hden']
  refine Nat.le_of_mul_le_mul_right ?_ hden
  calc num / den * den' * den = num / den * den * den' := Nat.mul_right_comm ..
    _ ≤ num * den' := Nat.mul_le_mul_right _ (Nat.div_mul_le_self num den)
    _ ≤ num' * den := h

/-- Of two ratios with one whole part the remainders compare as the ratios do. -/
theorem mod_mul_le_of_div_eq (hdiv : num / den = num' / den') (h : num * den' ≤ num' * den) :
    num % den * den' ≤ num' % den' * den := by
  have hnum := Nat.div_add_mod num den
  have hnum' := Nat.div_add_mod num' den'
  have hexpand : den * (num / den) * den' + num % den * den' ≤ den' * (num' / den') * den + num' % den' * den := by
    rw [← Nat.add_mul, ← Nat.add_mul, hnum, hnum']
    exact h
  have hwhole : den * (num / den) * den' = den' * (num' / den') * den := by
    rw [hdiv, Nat.mul_right_comm, Nat.mul_comm den den', Nat.mul_right_comm]
  omega

/-- What is not above one half bounds the smaller ratios by it. -/
theorem two_mul_le_of_mul_le (hden' : 0 < den') (h : num * den' ≤ num' * den) (hhalf : 2 * num' ≤ den') :
    2 * num ≤ den := by
  refine Nat.le_of_mul_le_mul_right (c := den') ?_ hden'
  calc 2 * num * den' = 2 * (num * den') := Nat.mul_assoc ..
    _ ≤ 2 * (num' * den) := Nat.mul_le_mul_left 2 h
    _ = 2 * num' * den := (Nat.mul_assoc ..).symm
    _ ≤ den' * den := Nat.mul_le_mul_right _ hhalf
    _ = den * den' := Nat.mul_comm ..

theorem two_mul_lt_of_mul_le (hden : 0 < den) (h : num * den' ≤ num' * den) (hhalf : 2 * num' < den') :
    2 * num < den := by
  refine Nat.lt_of_mul_lt_mul_right (a := den') ?_
  calc 2 * num * den' = 2 * (num * den') := Nat.mul_assoc ..
    _ ≤ 2 * (num' * den) := Nat.mul_le_mul_left 2 h
    _ = 2 * num' * den := (Nat.mul_assoc ..).symm
    _ < den' * den := Nat.mul_lt_mul_of_pos_right hhalf hden
    _ = den * den' := Nat.mul_comm ..

end

/-! ### The nearest whole number -/

theorem div_le_nearestEven (num den : Nat) : num / den ≤ nearestEven num den := by
  unfold nearestEven
  dsimp only
  split
  · exact Nat.le_refl _
  split
  · exact Nat.le_add_right _ _
  · exact Nat.le_succ _

theorem nearestEven_le_succ (num den : Nat) : nearestEven num den ≤ num / den + 1 := by
  unfold nearestEven
  dsimp only
  split
  · exact Nat.le_succ _
  split
  · have := Nat.mod_lt (num / den) (show 0 < 2 by decide)
    omega
  · exact Nat.le_refl _

theorem le_nearestEven {num den k : Nat} (hden : 0 < den) (h : k * den ≤ num) : k ≤ nearestEven num den :=
  Nat.le_trans ((Nat.le_div_iff_mul_le hden).2 h) (div_le_nearestEven num den)

theorem nearestEven_mono {num den num' den' : Nat} (hden : 0 < den) (hden' : 0 < den') (h : num * den' ≤ num' * den) :
    nearestEven num den ≤ nearestEven num' den' := by
  rcases Nat.lt_or_eq_of_le (div_le_div_of_mul_le hden hden' h) with hlt | heq
  · exact Nat.le_trans (nearestEven_le_succ num den) (Nat.le_trans hlt (div_le_nearestEven num' den'))
  -- Of two ratios with one whole part the remainders tell how they are rounded.
  have hmod := mod_mul_le_of_div_eq heq h
  have hless : 2 * (num' % den') < den' → 2 * (num % den) < den := two_mul_lt_of_mul_le hden hmod
  have hhalf : 2 * (num' % den') ≤ den' → 2 * (num % den) ≤ den := two_mul_le_of_mul_le hden' hmod
  unfold nearestEven
  dsimp only
  rw [heq]
  have hodd := Nat.mod_lt (num' / den') (show 0 < 2 by decide)
  split_ifs <;> omega

theorem nearestEven_le {num den k : Nat} (hden : 0 < den) (h : num ≤ k * den) : nearestEven num den ≤ k := by
  have hmono := nearestEven_mono hden hden (Nat.mul_le_mul_right den h)
  rwa [nearestEven_mul k hden] at hmono

/-! ### Whole numbers of units -/

/-- A ratio is rounded to a multiple of two to this power. -/
def unitExponent (num den : Nat) : Nat := (num / den).log2 + 1 - 53

/-- The units that a ratio is rounded to. -/
def roundUnits (num den : Nat) : Nat :=
  nearestEven num (den * 2 ^ unitExponent num den) * 2 ^ unitExponent num den

section
variable {num den num' den' : Nat}

theorem nearestEven_unitExponent_le (num : Nat) (hden : 0 < den) :
    nearestEven num (den * 2 ^ unitExponent num den) ≤ 2 ^ 53 := by
  refine nearestEven_le (Nat.mul_pos hden (Nat.two_pow_pos _)) ?_
  have hlog : num / den + 1 ≤ 2 ^ ((num / den).log2 + 1) := Nat.lt_log2_self
  have hexponent : (num / den).log2 + 1 ≤ 53 + unitExponent num den := by
    unfold unitExponent
    omega
  have hnum : num ≤ (num / den + 1) * den := by
    rw [Nat.mul_comm]
    exact Nat.le_of_lt (Nat.lt_mul_div_succ num hden)
  calc num ≤ (num / den + 1) * den := hnum
    _ ≤ 2 ^ (53 + unitExponent num den) * den :=
        Nat.mul_le_mul_right _ (Nat.le_trans hlog (Nat.pow_le_pow_right Nat.two_pos hexponent))
    _ = 2 ^ 53 * (den * 2 ^ unitExponent num den) := by rw [Nat.pow_add, Nat.mul_assoc, Nat.mul_comm den]

theorem two_pow_log2_le (h : unitExponent num den ≠ 0) : 2 ^ (52 + unitExponent num den) * den ≤ num := by
  have hlog : (num / den).log2 = 52 + unitExponent num den := by
    unfold unitExponent at *
    omega
  have hne : num / den ≠ 0 := by
    intro hzero
    rw [hzero, Nat.log2_zero] at hlog
    omega
  calc 2 ^ (52 + unitExponent num den) * den ≤ num / den * den := by
        rw [← hlog]
        exact Nat.mul_le_mul_right _ (Nat.log2_self_le hne)
    _ ≤ num := Nat.div_mul_le_self num den

theorem le_nearestEven_unitExponent (hden : 0 < den) (h : unitExponent num den ≠ 0) :
    2 ^ 52 ≤ nearestEven num (den * 2 ^ unitExponent num den) := by
  refine le_nearestEven (Nat.mul_pos hden (Nat.two_pow_pos _)) (Nat.le_trans (Nat.le_of_eq ?_) (two_pow_log2_le h))
  rw [Nat.pow_add, Nat.mul_assoc, Nat.mul_comm den]

theorem roundUnits_mono (hden : 0 < den) (hden' : 0 < den') (h : num * den' ≤ num' * den) :
    roundUnits num den ≤ roundUnits num' den' := by
  have hexponent : unitExponent num den ≤ unitExponent num' den' := by
    have hlog : (num / den).log2 ≤ (num' / den').log2 := by
      rw [Nat.log2_eq_log_two, Nat.log2_eq_log_two]
      exact Nat.log_mono_right (div_le_div_of_mul_le hden hden' h)
    unfold unitExponent
    omega
  unfold roundUnits
  rcases Nat.lt_or_eq_of_le hexponent with hlt | heq
  · -- The larger one has a larger power of two, which no mantissa of the smaller one exceeds.
    calc nearestEven num (den * 2 ^ unitExponent num den) * 2 ^ unitExponent num den
        ≤ 2 ^ 53 * 2 ^ unitExponent num den := Nat.mul_le_mul_right _ (nearestEven_unitExponent_le num hden)
      _ = 2 ^ (53 + unitExponent num den) := (Nat.pow_add ..).symm
      _ ≤ 2 ^ (52 + unitExponent num' den') := Nat.pow_le_pow_right Nat.two_pos (by omega)
      _ = 2 ^ 52 * 2 ^ unitExponent num' den' := Nat.pow_add ..
      _ ≤ _ := Nat.mul_le_mul_right _ (le_nearestEven_unitExponent hden' (by omega))
  · rw [heq]
    refine Nat.mul_le_mul_right _ (nearestEven_mono ?_ ?_ ?_)
    · exact Nat.mul_pos hden (Nat.two_pow_pos _)
    · exact Nat.mul_pos hden' (Nat.two_pow_pos _)
    · rw [← Nat.mul_assoc, ← Nat.mul_assoc]
      exact Nat.mul_le_mul_right _ h

/-- The units from which on a number is infinite. -/
def unitsLimit : Nat := 2 ^ 53 * 2 ^ 2045

theorem two_pow_carry (k : Nat) : 2 ^ 53 * 2 ^ k = 2 ^ 52 * 2 ^ (k + 1) := by
  rw [Nat.pow_succ 2 k, Nat.mul_comm (2 ^ k), ← Nat.mul_assoc]
  rfl

/-- Parts that are normal or of the least exponent are those of a number, as far as it is not infinite. -/
theorem ofParts_cases {m e : Nat} (negative : Bool) (hm : m < 2 ^ 53) (hnormal : e ≠ 0 → 2 ^ 52 ≤ m) :
    ofParts negative m e = infinite negative ∧ unitsLimit ≤ m * 2 ^ e ∨
      ∃ x : FiniteBinary64, ofParts negative m e = finite x ∧ x.units = m * 2 ^ e ∧ x.units < unitsLimit := by
  -- The exponent of the limit is a variable here, lest its power be computed.
  have hbelow : ∀ k, e ≤ k → m * 2 ^ e < 2 ^ 53 * 2 ^ k := fun k hk =>
    calc m * 2 ^ e < 2 ^ 53 * 2 ^ e := Nat.mul_lt_mul_of_pos_right hm (Nat.two_pow_pos e)
      _ ≤ 2 ^ 53 * 2 ^ k := Nat.mul_le_mul_left _ (Nat.pow_le_pow_right Nat.two_pos hk)
  have habove : ∀ k, k < e → 2 ^ 53 * 2 ^ k ≤ m * 2 ^ e := fun k hk => by
    rw [two_pow_carry]
    exact Nat.mul_le_mul (hnormal (by omega)) (Nat.pow_le_pow_right Nat.two_pos hk)
  by_cases he : e ≤ 2045
  · have hvalid : m < 0x20000000000000 ∧ (e = 0 ∨ 0x10000000000000 ≤ m) ∧ e ≤ 2045 := by
      refine ⟨hm, ?_, he⟩
      by_cases hzero : e = 0
      · exact .inl hzero
      · exact .inr (hnormal hzero)
    exact .inr ⟨_, dif_pos hvalid, rfl, hbelow 2045 he⟩
  · exact .inl ⟨dif_neg fun hvalid => he hvalid.2.2, habove 2045 (by omega)⟩

/-- Rounding comes to the rounded units, as far as they are not infinite. -/
theorem ofUnits_cases (num : Nat) (negative : Bool) (hden : 0 < den) :
    ofUnits negative num den = infinite negative ∧ unitsLimit ≤ roundUnits num den ∨
      ∃ x : FiniteBinary64, ofUnits negative num den = finite x ∧ x.units = roundUnits num den ∧
        x.units < unitsLimit := by
  have hle := nearestEven_unitExponent_le num hden
  have hge : unitExponent num den ≠ 0 → 2 ^ 52 ≤ nearestEven num (den * 2 ^ unitExponent num den) :=
    le_nearestEven_unitExponent hden
  have hofUnits : ofUnits negative num den =
      if nearestEven num (den * 2 ^ unitExponent num den) = 2 ^ 53 then
        ofParts negative (2 ^ 52) (unitExponent num den + 1)
      else ofParts negative (nearestEven num (den * 2 ^ unitExponent num den)) (unitExponent num den) := rfl
  rw [hofUnits]
  unfold roundUnits
  split
  next heq =>
    rw [heq, two_pow_carry]
    exact ofParts_cases negative (by decide) fun _ => Nat.le_refl _
  next hne => exact ofParts_cases negative (Nat.lt_of_le_of_ne hle hne) hge

end
end ClusterMetrics.Binary64
