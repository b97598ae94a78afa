import ClusterMetrics.Proofs.Json.Numbers
import ClusterMetrics.Proofs.Rounding

/-! # Finite doubles and their decimal numbers

Whatever number is read as a double, the double is finite (`Json.isFinite_of_double?`). The decimal number that stands
for a finite double has no more than seventeen digits and, but for the largest doubles, is small enough that scaling it
by its power of ten does not lead to infinity (`Json.scaleByPower?_isSome`). Rounding is monotone, so of products and
quotients only the largest ones need be looked at. -/

namespace ClusterMetrics

namespace Binary64
variable {x y : Binary64} {num den num' den' : Nat}

/-- Neither infinite nor no number. -/
def IsFinite (x : Binary64) : Prop := ∃ y, x = finite y

theorem isFinite_iff : x.IsFinite ↔ x ≠ nan ∧ x.isInfinite = false := by
  cases x with
  | finite y => exact ⟨fun _ => ⟨Binary64.noConfusion, rfl⟩, fun _ => ⟨y, rfl⟩⟩
  | infinite s => exact ⟨nofun, fun h => absurd h.2 Bool.noConfusion⟩
  | nan => exact ⟨nofun, fun h => absurd rfl h.1⟩

theorem isFinite_neg (h : x.IsFinite) : x.neg.IsFinite := by
  obtain ⟨y, rfl⟩ := h
  exact ⟨y.neg, rfl⟩

/-! ### Bounds -/

theorem exists_of_isInfinite_ofUnits {negative : Bool} (hden : 0 < den)
    (h : (ofUnits negative num den).isInfinite = false) : roundUnits num den < unitsLimit ∧
      ∃ x : FiniteBinary64, ofUnits negative num den = finite x ∧ x.units = roundUnits num den := by
  rcases ofUnits_cases num negative hden with ⟨hinfinite, -⟩ | ⟨x, hx, hunits, hlt⟩
  · rw [hinfinite] at h
    cases h
  · exact ⟨hunits ▸ hlt, x, hx, hunits⟩

/-- What is less than something that does not round to infinity does not either. -/
theorem isInfinite_ofUnits_mono (negative : Bool) {negative' : Bool} (hden : 0 < den) (hden' : 0 < den')
    (hle : num * den' ≤ num' * den) (h : (ofUnits negative' num' den').isInfinite = false) :
    (ofUnits negative num den).isInfinite = false := by
  obtain ⟨hlt, -⟩ := exists_of_isInfinite_ofUnits hden' h
  rcases ofUnits_cases num negative hden with ⟨-, hge⟩ | ⟨x, hx, -⟩
  · have := roundUnits_mono hden hden' hle
    omega
  · rw [hx]
    rfl

theorem unitsPerOne_pos : 0 < unitsPerOne := by
  have hpos : ∀ k, 0 < Nat.pow 2 k := fun _ => Nat.pow_pos Nat.two_pos
  delta unitsPerOne
  exact hpos 1074

theorem mul_finite (x y : FiniteBinary64) :
    (finite x).mul (finite y) = ofUnits (x.negative != y.negative) (x.units * y.units) unitsPerOne := rfl

theorem div_finite {x y : FiniteBinary64} (h : y.units ≠ 0) :
    (finite x).div (finite y) = ofUnits (x.negative != y.negative) (x.units * unitsPerOne) y.units := if_neg h

theorem ofNat_mono {m n : Nat} (hle : m ≤ n) (h : (ofNat n).isInfinite = false) :
    ∃ x y : FiniteBinary64, ofNat m = finite x ∧ ofNat n = finite y ∧ x.units ≤ y.units := by
  have hmul : m * unitsPerOne * 1 ≤ n * unitsPerOne * 1 := Nat.mul_le_mul_right _ (Nat.mul_le_mul_right _ hle)
  obtain ⟨-, y, hy, hyunits⟩ := exists_of_isInfinite_ofUnits Nat.one_pos h
  obtain ⟨-, x, hx, hxunits⟩ := exists_of_isInfinite_ofUnits Nat.one_pos
    (isInfinite_ofUnits_mono false Nat.one_pos Nat.one_pos hmul h)
  refine ⟨x, y, hx, hy, ?_⟩
  rw [hxunits, hyunits]
  exact roundUnits_mono Nat.one_pos Nat.one_pos hmul

/-- A product of natural numbers is not infinite if one of larger numbers is not. -/
theorem isInfinite_mul_ofNat {m n m' n' : Nat} (hm : m ≤ m') (hn : n ≤ n') (hm' : (ofNat m').isInfinite = false)
    (hn' : (ofNat n').isInfinite = false) (h : ((ofNat m').mul (ofNat n')).isInfinite = false) :
    ((ofNat m).mul (ofNat n)).isInfinite = false := by
  obtain ⟨x, x', hx, hx', hxx'⟩ := ofNat_mono hm hm'
  obtain ⟨y, y', hy, hy', hyy'⟩ := ofNat_mono hn hn'
  have hmul : x.units * y.units * unitsPerOne ≤ x'.units * y'.units * unitsPerOne :=
    Nat.mul_le_mul_right _ (Nat.mul_le_mul hxx' hyy')
  rw [hx', hy', mul_finite] at h
  rw [hx, hy, mul_finite]
  exact isInfinite_ofUnits_mono _ unitsPerOne_pos unitsPerOne_pos hmul h

theorem isInfinite_units (x : FiniteBinary64) : (ofUnits x.negative x.units 1).isInfinite = false := by
  by_cases h : x.units = 0
  · rw [h]
    cases x.negative <;> rfl
  · rw [ofUnits_units x h]
    rfl

theorem unitsPerOne_le_of_one_le {n : Nat} {y : FiniteBinary64} (hn : 1 ≤ n) (hy : ofNat n = finite y) :
    unitsPerOne ≤ y.units := by
  obtain ⟨one, hnegative, hunits⟩ : ∃ one : FiniteBinary64, one.negative = false ∧ one.units = unitsPerOne :=
    ⟨⟨false, 2 ^ 52, 1022, by decide, .inr (by decide), by decide⟩, rfl, by decide +kernel⟩
  have hone : ofNat 1 = finite one := by
    rw [← ofUnits_units one (hunits ▸ Nat.ne_of_gt unitsPerOne_pos), hnegative, hunits, ofNat, ofRatio, Nat.one_mul]
  obtain ⟨one', y', hone', hy', hle⟩ := ofNat_mono hn (by rw [hy]; rfl)
  cases hone.symm.trans hone'
  cases hy.symm.trans hy'
  rwa [hunits] at hle

theorem isFinite_ofNat {n : Nat} (h : n ≤ Nat.pow 10 Json.largestPower) : (ofNat n).IsFinite := by
  have hlimit : (ofNat (Nat.pow 10 Json.largestPower)).isInfinite = false := by decide +kernel
  obtain ⟨x, -, hx, -⟩ := ofNat_mono h hlimit
  exact ⟨x, hx⟩

theorem isScale_pow {n : Nat} (h : n ≤ Json.largestPower) : (ofNat (Nat.pow 10 n)).isScale = true := by
  -- The larger exponent is a variable here, lest its power be computed.
  have hle : ∀ k, n ≤ k → Nat.pow 10 n ≤ Nat.pow 10 k := fun k => Nat.pow_le_pow_right (by decide)
  obtain ⟨x, hx⟩ := isFinite_ofNat (hle _ h)
  have hunits := unitsPerOne_le_of_one_le (Nat.pow_pos (by decide)) hx
  rw [hx, isScale, bne_iff_ne]
  exact Nat.ne_of_gt (Nat.lt_of_lt_of_le unitsPerOne_pos hunits)

/-- A finite double divided by a whole number is finite. -/
theorem isFinite_div_ofNat {n : Nat} (hx : x.IsFinite) (hn : 1 ≤ n) (h : (ofNat n).isScale = true) :
    (x.div (ofNat n)).IsFinite := by
  refine isFinite_iff.2 ⟨div_ne_nan h (isFinite_iff.1 hx).1, ?_⟩
  obtain ⟨x, rfl⟩ := hx
  obtain ⟨y, hy, hunits⟩ := exists_units_of_isScale h
  have hle := unitsPerOne_le_of_one_le hn hy
  rw [hy, div_finite hunits]
  refine isInfinite_ofUnits_mono _ (Nat.pos_of_ne_zero hunits) Nat.one_pos ?_ (isInfinite_units x)
  rw [Nat.mul_one]
  exact Nat.mul_le_mul_left _ hle

end Binary64

/-! ### Doubles that were read -/

namespace Json
open Binary64 (IsFinite)

theorem isFinite_ofNat {n : Nat} (h : n < significandLimit) : (Binary64.ofNat n).IsFinite := by
  have hle : ∀ k, 20 ≤ k → Nat.pow 10 20 ≤ Nat.pow 10 k := fun k => Nat.pow_le_pow_right (by decide)
  exact Binary64.isFinite_ofNat (Nat.le_trans (Nat.le_trans (Nat.le_of_lt h) (by decide)) (hle _ (by decide)))

theorem one_le_pow (n : Nat) : 1 ≤ Nat.pow 10 n := Nat.pow_pos (by decide)

theorem isFinite_divideByPower {x : Binary64} (h : x.IsFinite) (n : Nat) : (divideByPower x n).IsFinite := by
  induction x, n using divideByPower.induct with
  | case1 x n hn =>
    rw [divideByPower, if_pos hn]
    exact Binary64.isFinite_div_ofNat h (one_le_pow _) (Binary64.isScale_pow hn)
  | case2 x n hn hzero => rwa [divideByPower, if_neg hn, if_pos hzero]
  | case3 x n hn hzero ih =>
    rw [divideByPower, if_neg hn, if_neg hzero]
    exact ih (Binary64.isFinite_div_ofNat h (one_le_pow _) (Binary64.isScale_pow (Nat.le_refl largestPower)))

theorem isFinite_scaleByPower? {x y : Binary64} {e : Int} (hx : x.IsFinite) (h : scaleByPower? x e = some y) :
    y.IsFinite := by
  unfold scaleByPower? at h
  split at h
  · cases h
    exact isFinite_divideByPower hx _
  split at h
  next he =>
    have hnan := Binary64.mul_ne_nan (Binary64.isScale_pow he) (Binary64.isFinite_iff.1 hx).1
    dsimp only at h
    split at h
    next => cases h
    next hinfinite =>
      cases h
      exact Binary64.isFinite_iff.2 ⟨hnan, Bool.eq_false_iff.2 hinfinite⟩
  split at h <;> cases h
  exact hx

theorem significand_pushWhole_lt {s : Significand} (h : s.significand < significandLimit) (d : Nat) :
    (s.pushWhole d).significand < significandLimit := by
  unfold Significand.pushWhole
  split
  next hfits => exact of_decide_eq_true (Bool.and_eq_true_iff.1 hfits).2
  next => exact h

theorem significand_pushFraction_lt {s : Significand} (h : s.significand < significandLimit) (d : Nat) :
    (s.pushFraction d).significand < significandLimit := by
  unfold Significand.pushFraction
  split
  next hfits => exact of_decide_eq_true (Bool.and_eq_true_iff.1 hfits).2
  next => exact h

theorem significand_lt (p : NumberParts) : p.significand.significand < significandLimit := by
  have hfold : ∀ (push : Significand → Nat → Significand),
      (∀ s d, s.significand < significandLimit → (push s d).significand < significandLimit) →
      ∀ (ds : List Nat) (s : Significand), s.significand < significandLimit →
        (ds.foldl push s).significand < significandLimit := by
    intro push hpush ds
    induction ds with
    | nil => exact fun s hs => hs
    | cons d ds ih => exact fun s hs => ih _ (hpush s d hs)
  refine hfold _ (fun s d hs => significand_pushFraction_lt hs d) _ _ ?_
  exact hfold _ (fun s d hs => significand_pushWhole_lt hs d) _ _ (show 0 < significandLimit by decide)

/-- Whatever text a double is read from, it is finite. -/
theorem isFinite_of_double? {j : Json} {x : Binary64} (h : j.double? = some x) : x.IsFinite := by
  cases j with
  | number text =>
    obtain ⟨y, hy, rfl⟩ := Option.map_eq_some_iff.1 h
    have hwhole := isFinite_ofNat (significand_lt (numberParts text))
    have hfinite : y.IsFinite := by
      split at hy
      · cases hy
        exact hwhole
      · exact isFinite_scaleByPower? hwhole hy
    split
    · exact Binary64.isFinite_neg hfinite
    · exact hfinite
  | _ => cases h

/-- A double that was read is equal to itself. -/
theorem numEq_self_double? {j : Json} {x : Binary64} (h : j.double? = some x) : x.numEq x = true :=
  Binary64.numEq_self_iff.2 (Binary64.isFinite_iff.1 (isFinite_of_double? h)).1

end Json

/-! ### The fewest digits -/

namespace Binary64.DecimalValue

/-- Each zero that is left out at the end of the digits is one more in the exponent. -/
theorem exists_trimmed (v : DecimalValue) :
    ∃ j : Nat, v.digits = v.trimmed.digits * 10 ^ j ∧ v.exponent + j = v.trimmed.exponent := by
  induction v using trimmed.induct with
  | case1 v h ih =>
    obtain ⟨j, hdigits, hexponent⟩ := ih
    rw [trimmed, dif_pos h]
    refine ⟨j + 1, ?_, ?_⟩
    · dsimp only at hdigits
      rw [Nat.pow_succ, ← Nat.mul_assoc, ← hdigits]
      omega
    · dsimp only at hexponent
      omega
  | case2 v h =>
    rw [trimmed, dif_neg h]
    exact ⟨0, (Nat.mul_one _).symm, by omega⟩

theorem digits_trimmed_le (v : DecimalValue) : v.trimmed.digits ≤ v.digits := by
  obtain ⟨j, hdigits, -⟩ := v.exists_trimmed
  rw [hdigits]
  exact Nat.le_mul_of_pos_right _ (Nat.pow_pos (by decide))

end Binary64.DecimalValue

theorem Text.lt_pow_length_decimal (n : Nat) : n < 10 ^ (decimal n).length := by
  have hlt := ofDigitChars_lt fun c => isDigit_of_mem_decimal (c := c) (n := n)
  rwa [decimal, Nat.ofDigitChars_ten_toDigits] at hlt

namespace FiniteBinary64
open Binary64 (DecimalValue unitsPerOne)
variable {x : FiniteBinary64} {v : DecimalValue} {exponent : Int} {count num den : Nat}

theorem exists_leadingExponent (x : FiniteBinary64) : ∃ a length : Nat,
    x.leadingExponent = length - (a + 1) ∧ x.units * 10 ^ a < 10 ^ length * unitsPerOne := by
  have hlength : ∀ a : Nat, ∃ b length : Nat,
      ((Text.decimal (x.units * Nat.pow 10 a / unitsPerOne)).length : Int) - (a + 1) = length - (b + 1) ∧
        x.units * 10 ^ b < 10 ^ length * unitsPerOne := fun a =>
    ⟨a, _, rfl, (Nat.div_lt_iff_lt_mul Binary64.unitsPerOne_pos).1 (Text.lt_pow_length_decimal _)⟩
  have hplaces : (401 : Int) = ((400 : Nat) : Int) + 1 := rfl
  unfold leadingExponent
  rw [hplaces]
  apply hlength

theorem of_nearestAt? (h : x.nearestAt? exponent num den = some v) :
    x.isNearest v = true ∧ v.digits ≤ num / den + 1 := by
  have hle := Binary64.div_le_nearestEven num den
  have hge := Binary64.nearestEven_le_succ num den
  unfold nearestAt? at h
  dsimp only at h
  split at h
  next hdown hup =>
    cases h
    refine ⟨?_, hge⟩
    rcases Nat.lt_or_eq_of_le hle with hlt | heq
    · rw [Nat.le_antisymm hge hlt]; exact hup
    · rw [← heq]; exact hdown
  next hdown _ => cases h; exact ⟨hdown, Nat.le_succ _⟩
  next _ hup => cases h; exact ⟨hup, Nat.le_refl _⟩
  next => cases h

/-- So many digits are no more. -/
theorem of_withDigits? (h : x.withDigits? count = some v) : x.isNearest v = true ∧ v.digits ≤ 10 ^ count := by
  have hpos := Binary64.unitsPerOne_pos
  have hten : ∀ n, 0 < 10 ^ n := fun n => Nat.pow_pos (by decide)
  obtain ⟨a, length, hleading, hlength⟩ := x.exists_leadingExponent
  unfold withDigits? at h
  dsimp only at h
  generalize unitsPerOne = unit at *
  split at h
  next hge =>
    obtain ⟨e, he⟩ := Int.eq_ofNat_of_zero_le hge
    have hsum : length = a + (count + e) := by omega
    have hlt : x.units / (unit * 10 ^ e) < 10 ^ count := by
      rw [Nat.div_lt_iff_lt_mul (Nat.mul_pos hpos (hten e))]
      refine Nat.lt_of_mul_lt_mul_right (a := 10 ^ a) ?_
      calc x.units * 10 ^ a < 10 ^ (a + (count + e)) * unit := hsum ▸ hlength
        _ = 10 ^ count * (unit * 10 ^ e) * 10 ^ a := by
            rw [Nat.pow_add, Nat.pow_add]
            ac_rfl
    rw [he, Int.toNat_natCast] at h
    obtain ⟨hnearest, hdigits⟩ := of_nearestAt? h
    exact ⟨hnearest, Nat.le_trans hdigits hlt⟩
  next hlt =>
    obtain ⟨e, he⟩ := Int.eq_ofNat_of_zero_le (show 0 ≤ -(x.leadingExponent - count + 1) by omega)
    have hsum : e + length = a + count := by omega
    have hlt : x.units * 10 ^ e / unit < 10 ^ count := by
      rw [Nat.div_lt_iff_lt_mul hpos]
      refine Nat.lt_of_mul_lt_mul_right (a := 10 ^ length) ?_
      calc x.units * 10 ^ e * 10 ^ length = x.units * 10 ^ a * 10 ^ count := by
            rw [Nat.mul_assoc, Nat.mul_assoc, ← Nat.pow_add, ← Nat.pow_add, hsum]
        _ < 10 ^ length * unit * 10 ^ count := Nat.mul_lt_mul_of_pos_right hlength (hten count)
        _ = 10 ^ count * unit * 10 ^ length := by ac_rfl
    rw [he, Int.toNat_natCast] at h
    obtain ⟨hnearest, hdigits⟩ := of_nearestAt? h
    exact ⟨hnearest, Nat.le_trans hdigits hlt⟩

/-- The shortest decimal number is zero or, without its last zeros, one of seventeen digits that rounds to the double. -/
theorem shortest_cases (x : FiniteBinary64) : x.shortest.digits = 0 ∨
    ∃ v, x.shortest = v.trimmed ∧ x.isNearest v = true ∧ v.digits ≤ 10 ^ 17 := by
  have hzero : (DecimalValue.trimmed ⟨0, 0⟩).digits = 0 := Nat.le_zero.1 (DecimalValue.digits_trimmed_le _)
  unfold shortest
  split
  · exact .inl rfl
  cases hfind : (List.range 17).findSome? fun i => x.withDigits? (i + 1) with
  | none => exact .inl hzero
  | some v =>
    obtain ⟨i, hi, hv⟩ := List.exists_of_findSome?_eq_some hfind
    obtain ⟨hnearest, hdigits⟩ := of_withDigits? hv
    refine .inr ⟨v, rfl, hnearest, Nat.le_trans hdigits (Nat.pow_le_pow_right (by decide) ?_)⟩
    exact List.mem_range.1 hi

theorem le_of_isNearest {v : DecimalValue} (h : x.isNearest v = true) :
    4 * v.ratio.1 * unitsPerOne ≤ (4 * x.mantissa + 2) * (2 ^ x.exponent * v.ratio.2) := by
  unfold isNearest at h
  dsimp only at h
  generalize hbelow : (if x.mantissa = 0x10000000000000 ∧ 0 < x.exponent then 1 else 2) = below at h
  split at h
  · exact of_decide_eq_true (Bool.and_eq_true_iff.1 h).2
  · exact Nat.le_of_lt (of_decide_eq_true (Bool.and_eq_true_iff.1 h).2)

/-- With trailing zeros put into the exponent, the number still reaches no further than halfway to the next double. -/
theorem trimmed_mul_pow_le (h : x.isNearest v = true) {k : Nat} (hk : v.trimmed.exponent = k) :
    4 * (v.trimmed.digits * 10 ^ k) * unitsPerOne ≤ (4 * x.mantissa + 2) * 2 ^ x.exponent := by
  obtain ⟨j, hdigits, hexponent⟩ := v.exists_trimmed
  have hle := le_of_isNearest h
  generalize unitsPerOne = unit at *
  unfold DecimalValue.ratio at hle
  split at hle
  next hge =>
    obtain ⟨e, he⟩ := Int.eq_ofNat_of_zero_le hge
    have hsum : k = j + e := by omega
    have hle : 4 * (v.digits * 10 ^ v.exponent.toNat) * unit ≤ (4 * x.mantissa + 2) * (2 ^ x.exponent * 1) := hle
    rwa [he, Int.toNat_natCast, hdigits, Nat.mul_assoc v.trimmed.digits, ← Nat.pow_add, ← hsum, Nat.mul_one] at hle
  next hlt =>
    obtain ⟨e, he⟩ := Int.eq_ofNat_of_zero_le (show 0 ≤ -v.exponent by omega)
    have hsum : j = k + e := by omega
    have hle : 4 * v.digits * unit ≤ (4 * x.mantissa + 2) * (2 ^ x.exponent * 10 ^ (-v.exponent).toNat) := hle
    rw [he, Int.toNat_natCast, hdigits, hsum, Nat.pow_add] at hle
    refine Nat.le_of_mul_le_mul_right (c := 10 ^ e) ?_ (Nat.pow_pos (by decide))
    calc 4 * (v.trimmed.digits * 10 ^ k) * unit * 10 ^ e = 4 * (v.trimmed.digits * (10 ^ k * 10 ^ e)) * unit := by ac_rfl
      _ ≤ (4 * x.mantissa + 2) * (2 ^ x.exponent * 10 ^ e) := hle
      _ = (4 * x.mantissa + 2) * 2 ^ x.exponent * 10 ^ e := by ac_rfl

/-- The largest number, or its negative. -/
def largest (negative : Bool) : FiniteBinary64 :=
  ⟨negative, 0x1FFFFFFFFFFFFF, 2045, by decide, .inr (by decide), by decide⟩

/-- What the decimal number of a double other than the largest ones does not exceed. -/
def decimalBound : Nat := (2 ^ 55 - 6) * 2 ^ 969

theorem quarters_le_of_ne (h : ∀ negative, x ≠ largest negative) :
    (4 * x.mantissa + 2) * 2 ^ x.exponent ≤ 4 * decimalBound * unitsPerOne := by
  have hlargest : ¬ (x.mantissa = 0x1FFFFFFFFFFFFF ∧ x.exponent = 2045) := by
    rintro ⟨hm, he⟩
    refine h x.negative ?_
    cases x
    subst hm he
    rfl
  have hm := x.mantissa_lt
  have he := x.exponent_le
  generalize x.mantissa = m at *
  generalize x.exponent = e at *
  have hmul : ∀ k, e ≤ k → (4 * m + 2 ≤ 2 ^ 55 - 6 ∨ e + 1 ≤ k) → (4 * m + 2) * 2 ^ e ≤ (2 ^ 55 - 6) * 2 ^ k := by
    rintro k hle (hm' | hlt)
    · exact Nat.mul_le_mul hm' (Nat.pow_le_pow_right Nat.two_pos hle)
    · calc (4 * m + 2) * 2 ^ e ≤ (2 ^ 55 - 6) * 2 * 2 ^ e := Nat.mul_le_mul_right _ (by omega)
        _ = (2 ^ 55 - 6) * 2 ^ (e + 1) := by rw [Nat.mul_assoc, ← Nat.pow_succ']
        _ ≤ (2 ^ 55 - 6) * 2 ^ k := Nat.mul_le_mul_left _ (Nat.pow_le_pow_right Nat.two_pos hlt)
  -- Named, the bound is not computed before the kernel compares it.
  have hbound : ∀ bound k, bound = (2 ^ 55 - 6) * Nat.pow 2 k → k = 2045 → (4 * m + 2) * 2 ^ e ≤ bound := by
    rintro _ k rfl hk
    exact hmul k (by omega) (by omega)
  exact hbound (4 * decimalBound * unitsPerOne) 2045 (by decide +kernel) rfl

theorem trimmed_mul_pow_le_decimalBound (hx : ∀ negative, x ≠ largest negative) (h : x.isNearest v = true) {k : Nat}
    (hk : v.trimmed.exponent = k) : v.trimmed.digits * 10 ^ k ≤ decimalBound := by
  have hle := Nat.le_trans (trimmed_mul_pow_le h hk) (quarters_le_of_ne hx)
  exact Nat.le_of_mul_le_mul_left (Nat.le_of_mul_le_mul_right hle Binary64.unitsPerOne_pos) (by decide)

end FiniteBinary64

namespace Json
open FiniteBinary64 (decimalBound)

/-- The most digits, up to seventeen, that can come with ten to the power of `291 + i`. -/
def digitsWith (i : Nat) : Nat := min (decimalBound / Nat.pow 10 (291 + i)) (Nat.pow 10 17)

theorem isInfinite_digitsWith_mul :
    ∀ i < 18, ((Binary64.ofNat (digitsWith i)).mul (.ofNat (Nat.pow 10 (291 + i)))).isInfinite = false := by
  decide +kernel

theorem exists_digitsWith {d k : Nat} (hpos : 0 < d) (hd : d ≤ 10 ^ 17) (hbound : d * 10 ^ k ≤ decimalBound) :
    ∃ i < 18, k ≤ 291 + i ∧ d ≤ digitsWith i := by
  have hten : ∀ n, 0 < 10 ^ n := fun n => Nat.pow_pos (by decide)
  have hk : ∀ n, decimalBound < Nat.pow 10 n → k < n := fun n hn =>
    (Nat.pow_lt_pow_iff_right (a := 10) (by decide)).1
      (Nat.lt_of_le_of_lt (Nat.le_trans (Nat.le_mul_of_pos_left _ hpos) hbound) hn)
  have hk : k < 309 := hk 309 (by decide +kernel)
  by_cases hle : k ≤ 291
  · have hdigits : Nat.pow 10 17 ≤ decimalBound / Nat.pow 10 (291 + 0) := by decide +kernel
    exact ⟨0, by decide, hle, Nat.le_min.2 ⟨Nat.le_trans hd hdigits, hd⟩⟩
  · obtain ⟨i, rfl⟩ := Nat.exists_eq_add_of_le (Nat.le_of_not_le hle)
    exact ⟨i, by omega, Nat.le_refl _, Nat.le_min.2 ⟨(Nat.le_div_iff_mul_le (hten _)).2 hbound, hd⟩⟩

theorem scaleByPower?_isSome {d k : Nat} (hpos : 0 < d) (hd : d ≤ 10 ^ 17) (hbound : d * 10 ^ k ≤ decimalBound) :
    (scaleByPower? (.ofNat d) k).isSome := by
  obtain ⟨i, hi, hki, hdi⟩ := exists_digitsWith hpos hd hbound
  have hpowers : 291 + i ≤ largestPower := by
    unfold largestPower
    omega
  have hfinite : (Binary64.ofNat (digitsWith i)).IsFinite :=
    isFinite_ofNat (Nat.lt_of_le_of_lt (Nat.min_le_right _ _) (by decide))
  obtain ⟨y, hy, -⟩ := Binary64.exists_units_of_isScale (Binary64.isScale_pow hpowers)
  have hpow : Nat.pow 10 k ≤ Nat.pow 10 (291 + i) := Nat.pow_le_pow_right (by decide) hki
  have hproduct := Binary64.isInfinite_mul_ofNat hdi hpow (Binary64.isFinite_iff.1 hfinite).2 (by rw [hy]; rfl)
    (isInfinite_digitsWith_mul i hi)
  unfold scaleByPower?
  rw [if_neg (by omega), Int.natAbs_natCast, if_pos (Nat.le_trans hki hpowers)]
  dsimp only
  rw [hproduct]
  rfl

end Json

end ClusterMetrics
