import ClusterMetrics.Proofs.DurationFractions

/-! # Durations have one normal form

A duration is written without needless digits, units or zeros: `0s`, below a second one amount in the largest unit that
fits, else hours, minutes and seconds. Of all texts this is the only one in that form, and it is read as the duration
itself, so no two durations are written alike (`eq_format_iff_normalForm`). -/

namespace ClusterMetrics.Duration
variable {c : Char} {cs ds : List Char} {places n : Nat}

/-! ### Fractions without zeros at their end -/

theorem digitValue_inj {d : Char} (hc : c.isDigit = true) (hd : d.isDigit = true) (h : digitValue c = digitValue d) :
    c = d := by
  obtain ⟨hc, -⟩ := Text.toNat_of_isDigit hc
  obtain ⟨hd, -⟩ := Text.toNat_of_isDigit hd
  unfold digitValue at h
  exact Char.toNat_inj.1 (by omega)

theorem fractionOf_pos (hdigits : ∀ c ∈ ds, c.isDigit = true) (hne : ds ≠ []) (hlast : ds.getLast? ≠ some '0') :
    0 < fractionOf ds := by
  induction ds with
  | nil => exact absurd rfl hne
  | cons c ds ih =>
    obtain ⟨hc, hdigits⟩ := List.forall_mem_cons.1 hdigits
    rw [fractionOf_cons]
    rw [List.getLast?_cons] at hlast
    have hnonneg := fractionOf_nonneg ds
    by_cases hnil : ds = []
    · subst hnil
      have hzero : digitValue c ≠ 0 := fun hzero => hlast (congrArg some (digitValue_inj hc rfl hzero))
      have hpos : (0 : ℚ) < digitValue c := by exact_mod_cast Nat.pos_of_ne_zero hzero
      positivity
    · have hpos := ih hdigits hnil fun htail => hlast (by rw [htail]; rfl)
      positivity

/-- A fraction is less than one, so a number tells its whole part and its fraction. -/
theorem add_fractionOf_inj {m n : Nat} (hcs : ∀ c ∈ cs, c.isDigit = true) (hds : ∀ c ∈ ds, c.isDigit = true)
    (h : (m : ℚ) + fractionOf cs = n + fractionOf ds) : m = n ∧ fractionOf cs = fractionOf ds := by
  have hfloor : ∀ {m : Nat} {ds : List Char}, (∀ c ∈ ds, c.isDigit = true) → ⌊(m : ℚ) + fractionOf ds⌋ = m := by
    intro m ds hds
    rw [Int.floor_natCast_add, Int.floor_eq_zero_iff.2 ⟨fractionOf_nonneg ds, fractionOf_lt_one hds⟩, add_zero]
  have hwhole : m = n := by
    have hfloors := congrArg Int.floor h
    rw [hfloor hcs, hfloor hds] at hfloors
    exact_mod_cast hfloors
  exact ⟨hwhole, add_left_cancel (hwhole ▸ h)⟩

/-- Such fractions are told apart by what they stand for. -/
theorem fractionOf_inj (hcs : ∀ c ∈ cs, c.isDigit = true) (hds : ∀ c ∈ ds, c.isDigit = true)
    (hcs' : cs.getLast? ≠ some '0') (hds' : ds.getLast? ≠ some '0') (h : fractionOf cs = fractionOf ds) : cs = ds := by
  induction cs generalizing ds with
  | nil =>
    by_contra hne
    exact absurd h (fractionOf_pos hds (Ne.symm hne) hds').ne
  | cons c cs ih =>
    cases ds with
    | nil => exact absurd h (fractionOf_pos hcs (List.cons_ne_nil _ _) hcs').ne'
    | cons d ds =>
      obtain ⟨hc, hcs⟩ := List.forall_mem_cons.1 hcs
      obtain ⟨hd, hds⟩ := List.forall_mem_cons.1 hds
      rw [fractionOf_cons, fractionOf_cons, div_left_inj' (by norm_num)] at h
      rw [List.getLast?_cons] at hcs' hds'
      obtain ⟨hdigit, hrest⟩ := add_fractionOf_inj hcs hds h
      rw [digitValue_inj hc hd hdigit,
        ih hcs hds (fun h => hcs' (by rw [h]; rfl)) (fun h => hds' (by rw [h]; rfl)) hrest]

/-! ### Numbers -/

/-- A number without needless zeros. -/
structure Numeral where
  whole : Nat
  fraction : List Char
  isDigit : ∀ c ∈ fraction, c.isDigit = true
  getLast?_ne : fraction.getLast? ≠ some '0'

namespace Numeral
variable {x y : Numeral}

/-- There is no point without digits behind it. -/
def toChars (x : Numeral) : List Char :=
  Text.decimal x.whole ++ if x.fraction = [] then [] else '.' :: x.fraction

def value (x : Numeral) : ℚ := x.whole + fractionOf x.fraction

theorem value_inj (h : x.value = y.value) : x = y := by
  obtain ⟨hwhole, hfraction⟩ := add_fractionOf_inj x.isDigit y.isDigit h
  have hdigits := fractionOf_inj x.isDigit y.isDigit x.getLast?_ne y.getLast?_ne hfraction
  cases x
  cases y
  cases hwhole
  cases hdigits
  rfl

theorem value_nonneg (x : Numeral) : 0 ≤ x.value := add_nonneg (Nat.cast_nonneg _) (fractionOf_nonneg _)

/-- The number `n / 10 ^ places`. -/
def ofScaled (places n : Nat) : Numeral where
  whole := n / 10 ^ places
  fraction := if n % 10 ^ places = 0 then [] else
    Text.dropEndWhile (· == '0') (Text.decimalPadded places (n % 10 ^ places))
  isDigit := by
    split
    · exact List.forall_mem_nil _
    · exact isDigit_of_mem_dropEndWhile fun _ => Text.isDigit_of_mem_decimalPadded
  getLast?_ne := by
    split
    · exact (Option.some_ne_none '0').symm
    · intro hzero
      obtain ⟨hne, hlast⟩ := List.mem_getLast?_eq_getLast hzero
      exact List.rdropWhile_last_not _ _ hne (beq_iff_eq.2 hlast.symm)

theorem pos_of_mod_ne_zero (h : n % 10 ^ places ≠ 0) : 0 < places := by
  refine Nat.pos_of_ne_zero fun hzero => h ?_
  rw [hzero, Nat.pow_zero, Nat.mod_one]

theorem fractionOf_trimmed (hp : 0 < places) (h : n < 10 ^ places) :
    fractionOf (Text.dropEndWhile (· == '0') (Text.decimalPadded places n)) * 10 ^ places = n := by
  have hlength : (Text.dropEndWhile (· == '0') (Text.decimalPadded places n)).length ≤ places :=
    (List.rdropWhile_prefix _ _).length_le.trans_eq (Text.length_decimalPadded hp h)
  have hmul := fractionOf_mul (10 ^ places) (Text.dropEndWhile (· == '0') (Text.decimalPadded places n))
  rw [fractionValue_trimmed hp h, lostOf_eq_zero (Nat.pow_dvd_pow 10 hlength), add_zero] at hmul
  exact_mod_cast hmul

theorem value_ofScaled (places n : Nat) : (ofScaled places n).value = n / 10 ^ places := by
  have hfraction : fractionOf (ofScaled places n).fraction * 10 ^ places = (n % 10 ^ places : Nat) := by
    unfold ofScaled
    dsimp only
    split
    case isTrue hzero =>
      rw [hzero, Nat.cast_zero]
      exact zero_mul _
    case isFalse hne => exact fractionOf_trimmed (pos_of_mod_ne_zero hne) (Nat.mod_lt _ (Nat.pow_pos (by decide)))
  have hsplit : ((n / 10 ^ places * 10 ^ places + n % 10 ^ places : Nat) : ℚ) = n := congrArg _ (Nat.div_add_mod' ..)
  rw [eq_div_iff (by positivity), value, add_mul, hfraction, ← hsplit]
  push_cast
  rfl

theorem toChars_ofScaled (places n : Nat) : (ofScaled places n).toChars = fixedPoint places n := by
  have hpow : Nat.pow 10 places = 10 ^ places := rfl
  unfold toChars ofScaled fixedPoint
  dsimp only
  rw [hpow]
  split
  case isTrue hzero => simp
  case isFalse hne =>
    have hfraction : Text.dropEndWhile (· == '0') (Text.decimalPadded places (n % 10 ^ places)) ≠ [] := by
      intro hnil
      have hvalue := fractionValue_trimmed (pos_of_mod_ne_zero hne) (Nat.mod_lt n (Nat.pow_pos (by decide)))
      rw [hnil] at hvalue
      exact hne hvalue.symm
    rw [if_neg hfraction]

theorem toChars_eq_fixedPoint (places : Nat) (h : x.value * 10 ^ places = n) : x.toChars = fixedPoint places n := by
  have hvalue : x.value = (ofScaled places n).value := by
    rw [value_ofScaled, ← h, mul_div_cancel_right₀ _ (by positivity)]
  rw [value_inj hvalue, toChars_ofScaled]

end Numeral

/-! ### Durations -/

def subsecondUnits : List (List Char × Nat) := [(['n', 's'], 1), (['\u00b5', 's'], 10 ^ 3), (['m', 's'], 10 ^ 6)]

/-- The form in which a duration is written. -/
inductive NormalForm (d : Duration) : List Char → Prop where
  | zero (h : d.nanoseconds = 0) : NormalForm d ['0', 's']
  /-- Below a second there is one amount, in the largest unit of which there is at least one. -/
  | subsecond {x : Numeral} {unit : List Char} {scale : Nat} (hsecond : d.nanoseconds < 10 ^ 9)
      (hunit : (unit, scale) ∈ subsecondUnits) (hvalue : x.value * scale = d.nanoseconds) (hone : 1 ≤ x.value)
      (hlargest : ∀ u ∈ subsecondUnits, scale < u.2 → (d.nanoseconds : ℚ) / u.2 < 1) : NormalForm d (x.toChars ++ unit)
  /-- From a second on there are hours, unless there is none, minutes, unless there are neither, and seconds. -/
  | compound {hours minutes : Nat} {seconds : Numeral} (hsecond : 10 ^ 9 ≤ d.nanoseconds) (hminutes : minutes < 60)
      (hseconds : seconds.value < 60)
      (hvalue : ((hours * 60 + minutes) * 60 + seconds.value) * 10 ^ 9 = d.nanoseconds) :
      NormalForm d ((if hours = 0 then [] else Text.decimal hours ++ ['h']) ++
        (if hours = 0 ∧ minutes = 0 then [] else Text.decimal minutes ++ ['m']) ++ seconds.toChars ++ ['s'])

variable {d : Duration}

theorem fixedPoint_zero (n : Nat) : fixedPoint 0 n = Text.decimal n := by
  have hpow : Nat.pow 10 0 = 1 := rfl
  unfold fixedPoint
  rw [hpow]
  dsimp only
  rw [if_pos (Nat.mod_one n), Nat.div_one]

theorem toChars_of_lt_second (hpos : d.nanoseconds ≠ 0) (h : d.nanoseconds < 10 ^ 9) : d.toChars =
    if d.nanoseconds < 10 ^ 3 then fixedPoint 0 d.nanoseconds ++ ['n', 's']
    else if d.nanoseconds < 10 ^ 6 then fixedPoint 3 d.nanoseconds ++ ['\u00b5', 's']
    else fixedPoint 6 d.nanoseconds ++ ['m', 's'] := by
  unfold toChars
  dsimp only
  rw [if_neg hpos, if_pos (show d.nanoseconds < 1000000000 from h), fixedPoint_zero]
  rfl

theorem toChars_of_second_le (h : 10 ^ 9 ≤ d.nanoseconds) {hours minutes : Nat} (hhours : hours = d.seconds / 3600)
    (hminutes : minutes = d.seconds % 3600 / 60) : d.toChars =
      (if hours = 0 then [] else Text.decimal hours ++ ['h']) ++
        (if hours = 0 ∧ minutes = 0 then [] else Text.decimal minutes ++ ['m']) ++
        fixedPoint 9 (d.seconds % 60 * 1000000000 + d.subsecond) ++ ['s'] := by
  have hnone : hours = 0 ∧ minutes = 0 ↔ ¬ (0 < hours ∨ 0 < minutes) := by omega
  unfold toChars
  dsimp only
  rw [if_neg (by omega), if_neg (by omega), if_neg (by omega), if_neg (by omega), ← hhours, ← hminutes]
  simp only [hnone, ite_not, Nat.pos_iff_ne_zero, ne_eq]

theorem NormalForm.eq_toChars_of_subsecond {x : Numeral} {unit : List Char} {scale : Nat}
    (hsecond : d.nanoseconds < 10 ^ 9) (hunit : (unit, scale) ∈ subsecondUnits)
    (hvalue : x.value * scale = d.nanoseconds) (hone : 1 ≤ x.value)
    (hlargest : ∀ u ∈ subsecondUnits, scale < u.2 → (d.nanoseconds : ℚ) / u.2 < 1) : x.toChars ++ unit = d.toChars := by
  have hle : scale ≤ d.nanoseconds := by
    have hscale : (scale : ℚ) ≤ d.nanoseconds := hvalue ▸ le_mul_of_one_le_left (Nat.cast_nonneg _) hone
    exact_mod_cast hscale
  have hlt : ∀ u ∈ subsecondUnits, scale < u.2 → d.nanoseconds < u.2 := by
    intro u hu hlarger
    have hpos : (0 : ℚ) < u.2 := by exact_mod_cast Nat.zero_lt_of_lt hlarger
    exact_mod_cast (div_lt_one hpos).1 (hlargest u hu hlarger)
  simp only [subsecondUnits, List.mem_cons, Prod.mk.injEq, List.not_mem_nil, or_false] at hunit
  rcases hunit with ⟨rfl, rfl⟩ | ⟨rfl, rfl⟩ | ⟨rfl, rfl⟩
  · have hsmall : d.nanoseconds < 10 ^ 3 := hlt (['\u00b5', 's'], 10 ^ 3) (by decide) (by decide)
    rw [toChars_of_lt_second (by omega) hsecond, if_pos hsmall,
      Numeral.toChars_eq_fixedPoint 0 (by exact_mod_cast hvalue)]
  · have hsmall : d.nanoseconds < 10 ^ 6 := hlt (['m', 's'], 10 ^ 6) (by decide) (by decide)
    rw [toChars_of_lt_second (by omega) hsecond, if_neg (by omega), if_pos hsmall,
      Numeral.toChars_eq_fixedPoint 3 (by exact_mod_cast hvalue)]
  · rw [toChars_of_lt_second (by omega) hsecond, if_neg (by omega), if_neg (by omega),
      Numeral.toChars_eq_fixedPoint 6 (by exact_mod_cast hvalue)]

theorem NormalForm.eq_toChars_of_compound {hours minutes : Nat} {seconds : Numeral} (hsecond : 10 ^ 9 ≤ d.nanoseconds)
    (hminutes : minutes < 60) (hseconds : seconds.value < 60)
    (hvalue : ((hours * 60 + minutes) * 60 + seconds.value) * 10 ^ 9 = d.nanoseconds) :
    (if hours = 0 then [] else Text.decimal hours ++ ['h']) ++
      (if hours = 0 ∧ minutes = 0 then [] else Text.decimal minutes ++ ['m']) ++ seconds.toChars ++ ['s'] =
      d.toChars := by
  have hsum := d.nanoseconds_eq
  have hsubsecond : d.subsecond < 1000000000 := Nat.mod_lt _ (by decide)
  have hnonneg := seconds.value_nonneg
  -- The nanoseconds past the last whole minute are a natural number below those of a minute.
  obtain ⟨rest, hrest⟩ : ∃ rest, d.nanoseconds = (hours * 60 + minutes) * 60 * 10 ^ 9 + rest := by
    refine Nat.exists_eq_add_of_le ?_
    have hle : (((hours * 60 + minutes) * 60 * 10 ^ 9 : Nat) : ℚ) ≤ d.nanoseconds := by
      rw [← hvalue]
      push_cast
      linarith
    exact_mod_cast hle
  have hscaled : seconds.value * 10 ^ 9 = rest := by
    rw [hrest] at hvalue
    push_cast at hvalue
    linarith
  have hlt : rest < 60 * 10 ^ 9 := by
    have hscaledLt : (rest : ℚ) < 60 * 10 ^ 9 := by linarith
    exact_mod_cast hscaledLt
  have hwholeHours : hours = d.seconds / 3600 := by omega
  have hwholeMinutes : minutes = d.seconds % 3600 / 60 := by omega
  rw [toChars_of_second_le hsecond hwholeHours hwholeMinutes,
    Numeral.toChars_eq_fixedPoint 9 hscaled, show d.seconds % 60 * 1000000000 + d.subsecond = rest by omega]

theorem NormalForm.eq_toChars (h : NormalForm d cs) : cs = d.toChars := by
  cases h with
  | zero hzero =>
    unfold toChars
    exact (if_pos hzero).symm
  | subsecond hsecond hunit hvalue hone hlargest => exact eq_toChars_of_subsecond hsecond hunit hvalue hone hlargest
  | compound hsecond hminutes hseconds hvalue => exact eq_toChars_of_compound hsecond hminutes hseconds hvalue

theorem normalForm_subsecond {unit : List Char} {limit : Nat} (places : Nat) (hsecond : d.nanoseconds < 10 ^ 9)
    (hunit : (unit, 10 ^ places) ∈ subsecondUnits) (hle : 10 ^ places ≤ d.nanoseconds) (hlt : d.nanoseconds < limit)
    (hlimit : ∀ u ∈ subsecondUnits, 10 ^ places < u.2 → limit ≤ u.2) :
    NormalForm d (fixedPoint places d.nanoseconds ++ unit) := by
  rw [← Numeral.toChars_ofScaled]
  refine .subsecond hsecond hunit ?_ ?_ fun u hu hlarger => ?_
  · rw [Numeral.value_ofScaled, Nat.cast_pow]
    exact div_mul_cancel₀ _ (by positivity)
  · rw [Numeral.value_ofScaled, le_div_iff₀ (by positivity), one_mul]
    exact_mod_cast hle
  · rw [div_lt_one (by exact_mod_cast Nat.zero_lt_of_lt hlarger)]
    exact_mod_cast hlt.trans_le (hlimit u hu hlarger)

theorem normalForm_compound (h : 10 ^ 9 ≤ d.nanoseconds) : NormalForm d d.toChars := by
  have hsum := d.nanoseconds_eq
  have hsubsecond : d.subsecond < 1000000000 := Nat.mod_lt _ (by decide)
  rw [toChars_of_second_le h rfl rfl, ← Numeral.toChars_ofScaled]
  refine .compound h (by omega) ?_ ?_
  · rw [Numeral.value_ofScaled, div_lt_iff₀ (by positivity)]
    have hlt : d.seconds % 60 * 1000000000 + d.subsecond < 60 * 10 ^ 9 := by omega
    exact_mod_cast hlt
  · rw [Numeral.value_ofScaled, add_mul, div_mul_cancel₀ _ (by positivity)]
    have hnanoseconds : (d.seconds / 3600 * 60 + d.seconds % 3600 / 60) * 60 * 10 ^ 9 +
        (d.seconds % 60 * 1000000000 + d.subsecond) = d.nanoseconds := by omega
    exact_mod_cast hnanoseconds

theorem normalForm_toChars (d : Duration) : NormalForm d d.toChars := by
  by_cases hzero : d.nanoseconds = 0
  · have htoChars : d.toChars = ['0', 's'] := by
      unfold toChars
      exact if_pos hzero
    rw [htoChars]
    exact .zero hzero
  by_cases hsecond : d.nanoseconds < 10 ^ 9
  · rw [toChars_of_lt_second hzero hsecond]
    split
    case isTrue hmicro =>
      exact normalForm_subsecond 0 hsecond (by decide) (Nat.pos_of_ne_zero hzero) hmicro (by decide)
    case isFalse hmicro =>
    split
    case isTrue hmilli =>
      exact normalForm_subsecond 3 hsecond (by decide) (Nat.le_of_not_lt hmicro) hmilli (by decide)
    case isFalse hmilli =>
      exact normalForm_subsecond 6 hsecond (by decide) (Nat.le_of_not_lt hmilli) hsecond (by decide)
  · exact normalForm_compound (Nat.le_of_not_lt hsecond)

/-- The text of a duration is read as the duration, so no other one is written alike, and no other text is in its normal
form. -/
theorem eq_format_iff_normalForm (d : Duration) :
    parse d.format = .ok d ∧ (∀ e : Duration, e.format = d.format → e = d) ∧
    ∀ text : String, text = d.format ↔ NormalForm d text.toList := by
  refine ⟨parse_format d, fun e h => ?_, fun text => ?_⟩
  · have hread := parse_format e
    rw [h, parse_format d] at hread
    exact (Except.ok.inj hread).symm
  · constructor
    · rintro rfl
      rw [format, String.toList_ofList]
      exact normalForm_toChars d
    · intro h
      rw [format, ← h.eq_toChars, String.ofList_toList]

end ClusterMetrics.Duration
