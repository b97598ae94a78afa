import ClusterMetrics.Proofs.DurationGrammar

/-! # How exact fractions are

An amount is its number times its unit, and what is read of it is a whole number of nanoseconds. As each digit counts
for its place rounded down, the digits whose places are no whole numbers lose a share each. What is read is the amount
rounded down exactly if these shares are less than a nanosecond together (`Amount.read_eq_floor_iff`): always in seconds
and their parts, whose places are powers of ten, but not in hours and minutes (`Amount.floor_twelfthPlace`). -/

namespace ClusterMetrics.Duration
variable {c : Char} {ds : List Char} {place : Nat}

/-! ### Fractions -/

/-- What the digits behind the point stand for. -/
def fractionOf (ds : List Char) : ℚ := ∑ i : Fin ds.length, (digitValue (ds.get i) : ℚ) / 10 ^ (i + 1 : Nat)

/-- What the digits behind the point lose of a unit when their places are rounded down. -/
def lostOf (scale : Nat) (ds : List Char) : ℚ :=
  ∑ i : Fin ds.length, (digitValue (ds.get i) : ℚ) * (scale % 10 ^ (i + 1 : Nat) : Nat) / 10 ^ (i + 1 : Nat)

theorem fractionOf_cons (c : Char) (ds : List Char) : fractionOf (c :: ds) = (digitValue c + fractionOf ds) / 10 := by
  refine (Fin.sum_univ_succ (n := ds.length) fun i => (digitValue ((c :: ds).get i) : ℚ) / 10 ^ (i + 1 : Nat)).trans ?_
  rw [fractionOf, add_div, Finset.sum_div]
  simp only [Fin.val_zero, Fin.val_succ, pow_succ, pow_zero, one_mul, div_div]
  rfl

theorem fractionOf_nonneg (ds : List Char) : 0 ≤ fractionOf ds := Finset.sum_nonneg fun _ _ => by positivity

theorem digitValue_le (h : c.isDigit = true) : digitValue c ≤ 9 := Nat.sub_le_of_le_add (Text.toNat_of_isDigit h).2

theorem fractionOf_lt_one (h : ∀ c ∈ ds, c.isDigit = true) : fractionOf ds < 1 := by
  induction ds with
  | nil => exact zero_lt_one
  | cons c ds ih =>
    obtain ⟨hc, hds⟩ := List.forall_mem_cons.1 h
    have hdigit : (digitValue c : ℚ) ≤ 9 := by exact_mod_cast digitValue_le hc
    have hrest := ih hds
    rw [fractionOf_cons]
    linarith

theorem fractionOf_eq (ds : List Char) : fractionOf ds = (Nat.ofDigitChars 10 ds 0 : ℚ) / 10 ^ ds.length := by
  induction ds with
  | nil => rw [Nat.ofDigitChars_nil, Nat.cast_zero, zero_div]; rfl
  | cons c ds ih =>
    have hcons : Nat.ofDigitChars 10 (c :: ds) 0 = 10 ^ ds.length * digitValue c + Nat.ofDigitChars 10 ds 0 := by
      rw [Nat.ofDigitChars_cons, Nat.mul_zero, Nat.zero_add, Nat.ofDigitChars_eq_ofDigitChars_zero]
      rfl
    rw [fractionOf_cons, ih, hcons, List.length_cons]
    push_cast
    field_simp
    ring

/-- A unit is split among the digits into whole nanoseconds and what is lost. -/
theorem fractionOf_mul (scale : Nat) (ds : List Char) :
    fractionOf ds * scale = fractionValue scale ds + lostOf scale ds := by
  rw [fractionValue_eq_sum, fractionOf, lostOf, Finset.sum_mul]
  push_cast
  rw [← Finset.sum_add_distrib]
  refine Finset.sum_congr rfl fun i _ => ?_
  have hsplit : (scale : ℚ) =
      10 ^ (i + 1 : Nat) * (scale / 10 ^ (i + 1 : Nat) : Nat) + (scale % 10 ^ (i + 1 : Nat) : Nat) := by
    exact_mod_cast (Nat.div_add_mod scale (10 ^ (i + 1 : Nat))).symm
  conv_lhs => rw [hsplit]
  field_simp

/-- All digits lose of the last digit of the unit, and those behind the first lose of the unit without it. -/
theorem lostOf_cons (scale : Nat) (c : Char) (ds : List Char) :
    lostOf scale (c :: ds) = (scale % 10 : Nat) * fractionOf (c :: ds) + lostOf (scale / 10) ds := by
  have hall := fractionOf_mul scale (c :: ds)
  have hrest := fractionOf_mul (scale / 10) ds
  have hscale : (scale : ℚ) = 10 * (scale / 10 : Nat) + (scale % 10 : Nat) := by
    exact_mod_cast (Nat.div_add_mod scale 10).symm
  have hvalue : fractionValue scale (c :: ds) = digitValue c * (scale / 10) + fractionValue (scale / 10) ds := rfl
  rw [hvalue, hscale] at hall
  rw [fractionOf_cons] at hall ⊢
  push_cast at hall
  linarith

theorem lostOf_nonneg (scale : Nat) (ds : List Char) : 0 ≤ lostOf scale ds := Finset.sum_nonneg fun _ _ => by positivity

/-- Nothing is lost if there are not more digits than the unit has zeros. -/
theorem lostOf_eq_zero {scale : Nat} (h : 10 ^ ds.length ∣ scale) : lostOf scale ds = 0 := by
  refine Finset.sum_eq_zero fun i _ => ?_
  rw [Nat.mod_eq_zero_of_dvd ((Nat.pow_dvd_pow 10 i.isLt).trans h), Nat.cast_zero, mul_zero, zero_div]

theorem digits_sum_pos {n : Nat} (h : 0 < n) : 0 < (Nat.digits 10 n).sum := by
  have hne : Nat.digits 10 n ≠ [] := Nat.digits_ne_nil_iff_ne_zero.2 (Nat.ne_of_gt h)
  have hlast := Nat.getLast_digit_ne_zero 10 (Nat.ne_of_gt h)
  exact Nat.lt_of_lt_of_le (Nat.pos_of_ne_zero hlast) (List.le_sum_of_mem (List.getLast_mem hne))

/-- Less is lost than the digits of the unit itself add up to. -/
theorem lostOf_lt (h : ∀ c ∈ ds, c.isDigit = true) {scale : Nat} (hscale : 0 < scale) :
    lostOf scale ds < (Nat.digits 10 scale).sum := by
  induction ds generalizing scale with
  | nil =>
    rw [lostOf_eq_zero (one_dvd scale)]
    exact Nat.cast_pos.2 (digits_sum_pos hscale)
  | cons c ds ih =>
    have hfraction := fractionOf_lt_one h
    rw [Nat.digits_def' (by decide) hscale, List.sum_cons, lostOf_cons, Nat.cast_add]
    -- One of the two parts has to be less than its digits: the last digit if it is the only one, else the rest.
    rcases Nat.eq_zero_or_pos (scale / 10) with hzero | hpos
    · have hdigit : ((scale % 10 : Nat) : ℚ) * fractionOf (c :: ds) < (scale % 10 : Nat) :=
        mul_lt_of_lt_one_right (Nat.cast_pos.2 (by omega)) hfraction
      rw [hzero, lostOf_eq_zero (Nat.dvd_zero _), Nat.digits_zero, List.sum_nil, Nat.cast_zero, add_zero, add_zero]
      exact hdigit
    · have hdigit : ((scale % 10 : Nat) : ℚ) * fractionOf (c :: ds) ≤ (scale % 10 : Nat) :=
        mul_le_of_le_one_right (Nat.cast_nonneg _) hfraction.le
      exact add_lt_add_of_le_of_lt hdigit (ih (List.forall_mem_cons.1 h).2 hpos)

/-! ### Amounts -/

namespace Amount
variable {a : Amount} {d : Duration} {input : String}

/-- The number as it is written. -/
def quantity (a : Amount) : ℚ := Nat.ofDigitChars 10 a.whole 0 + fractionOf a.fraction

def lost (a : Amount) : ℚ := lostOf a.scale a.fraction

theorem quantity_mul_scale (a : Amount) : a.quantity * a.scale = a.value + a.lost := by
  rw [quantity, add_mul, fractionOf_mul, lost, value_eq, ← add_assoc]
  push_cast
  rfl

theorem floor_eq (a : Amount) : ⌊a.quantity * a.scale⌋ = a.value + ⌊a.lost⌋ := by
  rw [quantity_mul_scale, Int.floor_natCast_add]

theorem floor_eq_value_iff (a : Amount) : (a.value : ℤ) = ⌊a.quantity * a.scale⌋ ↔ a.lost < 1 := by
  have hnonneg : 0 ≤ a.lost := lostOf_nonneg ..
  rw [floor_eq, left_eq_add, Int.floor_eq_zero_iff, Set.mem_Ico]
  exact and_iff_right hnonneg

theorem lost_lt (a : Amount) : a.lost < (Nat.digits 10 a.scale).sum := lostOf_lt a.isDigit_of_mem_fraction a.scale_pos

theorem nanoseconds_of_parse (htext : Text.trim input.toList = a.toChars) (h : parse input = .ok d) :
    d.nanoseconds = a.value := by
  have hread := denotes_of_ofChars (parse_eq_ok_iff.1 h)
  rw [htext] at hread
  exact hread.unique (.inr ⟨[a], List.cons_ne_nil _ _, List.append_nil _, Nat.add_zero _⟩)

/-- What is read of an amount never exceeds it, and falls short of it by less than nine nanoseconds. It is the amount in
whole nanoseconds exactly if less than one is lost, as in all units but hours and minutes. In these too nothing is lost
unless there are more digits behind the point than the unit has zeros. -/
theorem read_eq_floor_iff (htext : Text.trim input.toList = a.toChars) (h : parse input = .ok d) :
    ((d.nanoseconds : ℤ) = ⌊a.quantity * a.scale⌋ ↔ a.lost < 1) ∧
    (d.nanoseconds ≤ a.quantity * a.scale ∧ a.quantity * a.scale < d.nanoseconds + 9) ∧
    (a.unit ∉ [['h'], ['m']] → a.lost < 1) ∧
    (a.unit = ['m'] → a.fraction.length ≤ 10 → a.lost = 0) ∧
    (a.unit = ['h'] → a.fraction.length ≤ 11 → a.lost = 0) := by
  rw [nanoseconds_of_parse htext h]
  have hunits : ∀ u ∈ units, (Nat.digits 10 u.2).sum ≤ 9 ∧ (u.1 ∉ [['h'], ['m']] → (Nat.digits 10 u.2).sum = 1) ∧
      (u.1 = ['m'] → 10 ^ 10 ∣ u.2) ∧ (u.1 = ['h'] → 10 ^ 11 ∣ u.2) := by decide
  obtain ⟨hnine, hone, hminute, hhour⟩ := hunits _ a.mem_units
  have hlost := a.lost_lt
  refine ⟨a.floor_eq_value_iff, ⟨?_, ?_⟩, fun hunit => ?_, fun hunit hlength => ?_, fun hunit hlength => ?_⟩
  · rw [quantity_mul_scale]
    exact le_add_of_nonneg_right (lostOf_nonneg ..)
  · rw [quantity_mul_scale]
    exact add_lt_add_of_le_of_lt le_rfl (hlost.trans_le (by exact_mod_cast hnine))
  · rw [hone hunit, Nat.cast_one] at hlost
    exact hlost
  · exact lostOf_eq_zero ((Nat.pow_dvd_pow 10 hlength).trans (hminute hunit))
  · exact lostOf_eq_zero ((Nat.pow_dvd_pow 10 hlength).trans (hhour hunit))

/-- A minute and a half, and one in the eleventh place. -/
def eleventhPlace : Amount where
  whole := ['1']
  fraction? := some "50000000001".toList
  unit := ['m']
  scale := 60 * 10 ^ 9
  isDigit := List.all_eq_true.1 (by decide +kernel)
  ne_nil := by decide
  mem_units := by decide

theorem quantity_eleventhPlace : eleventhPlace.quantity = 150000000001 / 10 ^ 11 := by
  have hdigits : Nat.ofDigitChars 10 eleventhPlace.fraction 0 = 50000000001 := by decide +kernel
  have hlength : eleventhPlace.fraction.length = 11 := by decide +kernel
  have hwhole : Nat.ofDigitChars 10 eleventhPlace.whole 0 = 1 := by decide
  rw [quantity, fractionOf_eq, hdigits, hlength, hwhole]
  norm_num

theorem read_eq_floor_eleventhPlace :
    Text.trim " 1.50000000001m".toList = eleventhPlace.toChars ∧
    parse " 1.50000000001m" = .ok ⟨90 * 10 ^ 9, by decide⟩ ∧
    ⌊eleventhPlace.quantity * eleventhPlace.scale⌋ = 90 * 10 ^ 9 ∧ eleventhPlace.lost < 1 := by
  have htext : Text.trim " 1.50000000001m".toList = eleventhPlace.toChars := by decide +kernel
  have hread : parse " 1.50000000001m" = .ok ⟨90 * 10 ^ 9, by decide⟩ := by decide +kernel
  have hfloor : ⌊eleventhPlace.quantity * eleventhPlace.scale⌋ = 90 * 10 ^ 9 := by
    rw [quantity_eleventhPlace, eleventhPlace, Int.floor_eq_iff]
    norm_num
  exact ⟨htext, hread, hfloor, (read_eq_floor_iff htext hread).1.1 hfloor.symm⟩

/-- Nine in the twelfth place of an hour, each of which is 3.6 nanoseconds. -/
def twelfthPlace : Amount where
  whole := ['0']
  fraction? := some "000000000009".toList
  unit := ['h']
  scale := 3600 * 10 ^ 9
  isDigit := List.all_eq_true.1 (by decide +kernel)
  ne_nil := by decide
  mem_units := by decide

/-- They are 32 whole nanoseconds, but 27 are read. -/
theorem floor_twelfthPlace :
    Text.trim "0.000000000009h".toList = twelfthPlace.toChars ∧
    parse "0.000000000009h" = .ok ⟨27, by decide⟩ ∧ ⌊twelfthPlace.quantity * twelfthPlace.scale⌋ = 32 := by
  have hdigits : Nat.ofDigitChars 10 twelfthPlace.fraction 0 = 9 := by decide +kernel
  have hlength : twelfthPlace.fraction.length = 12 := by decide +kernel
  have hwhole : Nat.ofDigitChars 10 twelfthPlace.whole 0 = 0 := by decide
  refine ⟨by decide +kernel, by decide +kernel, ?_⟩
  rw [quantity, fractionOf_eq, hdigits, hlength, hwhole, twelfthPlace, Int.floor_eq_iff]
  norm_num

end Amount

end ClusterMetrics.Duration
