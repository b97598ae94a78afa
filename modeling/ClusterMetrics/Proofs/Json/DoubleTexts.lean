import ClusterMetrics.Proofs.Json.FiniteDoubles

/-! # Doubles as texts

Every finite double is written as a number that is read as some double (`isSome_double?_ofBinary64`). The digits of the
shortest decimal number fit the reader's 64 bits, so they are all read (`significand_eq`), and the exponent comes to that
of the decimal number in each of the four notations. Only a power of ten that is multiplied by could lead past the
largest double; the decimal number of a double is too small for that. -/

namespace ClusterMetrics

namespace Json

/-! ### The parts of a number -/

variable {whole fraction : Bytes}

theorem takeWhile_digits_append {ds rest : Bytes} (h : Digits ds) (hrest : ∀ b ∈ rest.head?, Byte.isDigit b = false) :
    (ds ++ rest).takeWhile Byte.isDigit = ds := by
  rw [List.takeWhile_append_of_pos h]
  cases rest with
  | nil => exact List.append_nil ds
  | cons b rest => rw [List.takeWhile_cons_of_neg (by simp [hrest b rfl]), List.append_nil]

theorem dropWhile_digits_append {ds rest : Bytes} (h : Digits ds) (hrest : ∀ b ∈ rest.head?, Byte.isDigit b = false) :
    (ds ++ rest).dropWhile Byte.isDigit = rest := by
  rw [List.dropWhile_append_of_pos h]
  cases rest with
  | nil => rfl
  | cons b rest => rw [List.dropWhile_cons_of_neg (by simp [hrest b rfl])]

theorem head?_digits_append {ds rest : Bytes} (h : Digits ds) (hne : ds ≠ []) :
    ((ds ++ rest).head? == some Byte.minus) = false := by
  obtain ⟨d, ds, rfl⟩ := List.exists_cons_of_ne_nil hne
  refine beq_eq_false_iff_ne.2 fun heq => ?_
  have hd : Byte.isDigit d = true := h d List.mem_cons_self
  cases heq
  exact Bool.false_ne_true hd

/-- The exponent that the end of a number says. -/
def endExponent : Bytes → Option Int
  | [] => none
  | _ :: power => some (exponentOf power)

/-- Digits, a point with digits, and perhaps what begins with the letter of an exponent. -/
theorem numberParts_point (power : Bytes) (hwhole : Digits whole) (hne : whole ≠ []) (hfraction : Digits fraction)
    (hpower : ∀ b ∈ power.head?, Byte.isDigit b = false) :
    numberParts (whole ++ Byte.point :: (fraction ++ power)) =
      ⟨false, digitValues whole, digitValues fraction, endExponent power⟩ := by
  have hpoint : ∀ b ∈ (Byte.point :: (fraction ++ power)).head?, Byte.isDigit b = false := by
    rintro _ ⟨⟩
    rfl
  unfold numberParts
  simp only [head?_digits_append hwhole hne, takeWhile_digits_append hwhole hpoint,
    dropWhile_digits_append hwhole hpoint, takeWhile_digits_append hfraction hpower,
    dropWhile_digits_append hfraction hpower, List.head?_cons, List.tail_cons, Bool.false_eq_true, if_false,
    beq_self_eq_true, if_true]
  cases power <;> rfl

theorem numberParts_letter (power : Bytes) {e : UInt8} (hwhole : Digits whole) (hne : whole ≠ [])
    (hdigit : Byte.isDigit e = false) (hpoint : e ≠ Byte.point) :
    numberParts (whole ++ e :: power) = ⟨false, digitValues whole, [], some (exponentOf power)⟩ := by
  have hrest : ∀ b ∈ (e :: power).head?, Byte.isDigit b = false := by
    rintro _ ⟨⟩
    exact hdigit
  have hne' : ((some e : Option UInt8) == some Byte.point) = false :=
    beq_eq_false_iff_ne.2 fun h => hpoint (Option.some.inj h)
  unfold numberParts
  simp only [head?_digits_append hwhole hne, takeWhile_digits_append hwhole hrest, dropWhile_digits_append hwhole hrest,
    List.head?_cons, hne', Bool.false_eq_true, if_false]
  rfl

theorem numberParts_minus_cons {text : Bytes} (h : (text.head? == some Byte.minus) = false) :
    numberParts (Byte.minus :: text) = { numberParts text with negative := true } := by
  unfold numberParts
  simp only [List.head?_cons, beq_self_eq_true, if_true, List.tail_cons, h, Bool.false_eq_true, if_false]

/-! ### Digits that fit -/

theorem le_foldl_digits (ds : List Nat) (n : Nat) : n ≤ ds.foldl (fun n d => 10 * n + d) n := by
  induction ds generalizing n with
  | nil => exact Nat.le_refl n
  | cons d ds ih => exact Nat.le_trans (by omega) (ih (10 * n + d))

theorem foldl_pushWhole {ds : List Nat} {n : Nat} {e : Int}
    (h : ds.foldl (fun n d => 10 * n + d) n < significandLimit) :
    ds.foldl Significand.pushWhole ⟨n, e, false⟩ = ⟨ds.foldl (fun n d => 10 * n + d) n, e, false⟩ := by
  induction ds generalizing n with
  | nil => rfl
  | cons d ds ih =>
    have hfits : 10 * n + d < significandLimit := Nat.lt_of_le_of_lt (le_foldl_digits ds _) h
    have hpush : Significand.pushWhole ⟨n, e, false⟩ d = ⟨10 * n + d, e, false⟩ := by
      simp [Significand.pushWhole, hfits]
    rw [List.foldl_cons, hpush, List.foldl_cons]
    exact ih h

theorem foldl_pushFraction {ds : List Nat} {n : Nat} {e : Int}
    (h : ds.foldl (fun n d => 10 * n + d) n < significandLimit) :
    ds.foldl Significand.pushFraction ⟨n, e, false⟩ = ⟨ds.foldl (fun n d => 10 * n + d) n, e - ds.length, false⟩ := by
  induction ds generalizing n e with
  | nil => simp
  | cons d ds ih =>
    have hfits : 10 * n + d < significandLimit := Nat.lt_of_le_of_lt (le_foldl_digits ds _) h
    have hpush : Significand.pushFraction ⟨n, e, false⟩ d = ⟨10 * n + d, e - 1, false⟩ := by
      simp [Significand.pushFraction, hfits]
    have hlength : e - 1 - (ds.length : Int) = e - ((d :: ds).length : Int) := by
      rw [List.length_cons]
      omega
    rw [List.foldl_cons, hpush, ih h, hlength, List.foldl_cons]

/-- Digits that fit together are all read. -/
theorem significand_eq {p : NumberParts} (h : ofDigits (p.whole ++ p.fraction) < significandLimit) :
    p.significand = ⟨ofDigits (p.whole ++ p.fraction), -(p.fraction.length : Int), false⟩ := by
  unfold ofDigits at h ⊢
  rw [List.foldl_append] at h ⊢
  have hwhole := foldl_pushWhole (e := 0) (Nat.lt_of_le_of_lt (le_foldl_digits p.fraction _) h)
  unfold NumberParts.significand
  dsimp only
  rw [hwhole]
  dsimp only
  rw [foldl_pushFraction h, Int.zero_sub]

/-! ### Doubles that are written -/

theorem isSome_double?_of_scaled {p : NumberParts}
    (h : (scaleByPower? (.ofNat p.significand.significand) (p.significand.exponent + p.exponent.getD 0)).isSome) :
    p.double?.isSome := by
  unfold NumberParts.double?
  dsimp only
  rw [Option.isSome_map]
  split
  · rfl
  · exact h

theorem isSome_scaleByPower?_of_neg (x : Binary64) {e : Int} (h : e < 0) : (scaleByPower? x e).isSome := by
  unfold scaleByPower?
  rw [if_pos h]
  rfl

/-- What begins with a digit and is read as a double. -/
structure IsReadAsDouble (cs : List Char) : Prop where
  isDigit : ∀ c ∈ cs.head?, c.isDigit = true
  isSome : (numberParts (charBytes cs)).double?.isSome

theorem IsReadAsDouble.minus {cs : List Char} (h : IsReadAsDouble cs) :
    (numberParts (charBytes ('-' :: cs))).double?.isSome := by
  have hminus : ((charBytes cs).head? == some Byte.minus) = false := by
    cases cs with
    | nil => rfl
    | cons c cs =>
      refine beq_eq_false_iff_ne.2 fun heq => ?_
      have hbyte : UInt8.ofNat c.toNat = Byte.minus := Option.some.inj heq
      have hdigit := isDigit_charByte (h.isDigit c rfl)
      rw [hbyte] at hdigit
      exact Bool.false_ne_true hdigit
  have hsome := h.isSome
  have hparts : numberParts (charBytes ('-' :: cs)) = { numberParts (charBytes cs) with negative := true } :=
    numberParts_minus_cons hminus
  rw [hparts]
  unfold NumberParts.double? at hsome ⊢
  rw [Option.isSome_map] at hsome ⊢
  exact hsome

variable {ws fs : List Char}

theorem ofDigits_append_charBytes (hws : ∀ c ∈ ws, c.isDigit = true) (hfs : ∀ c ∈ fs, c.isDigit = true) :
    ofDigits (digitValues (charBytes ws) ++ digitValues (charBytes fs)) = Nat.ofDigitChars 10 (ws ++ fs) 0 := by
  have happend : digitValues (charBytes ws) ++ digitValues (charBytes fs) = digitValues (charBytes (ws ++ fs)) := by
    rw [charBytes_append, digitValues, digitValues, digitValues, List.map_append]
  rw [happend, ofDigits_charBytes fun c hc => (List.mem_append.1 hc).elim (hws c) (hfs c)]

/-- A number with places after the point is divided by a power of ten, and so can be read. -/
theorem IsReadAsDouble.point (hws : ∀ c ∈ ws, c.isDigit = true) (hne : ws ≠ []) (hfs : ∀ c ∈ fs, c.isDigit = true)
    (hplaces : fs ≠ []) (hlt : Nat.ofDigitChars 10 (ws ++ fs) 0 < significandLimit) :
    IsReadAsDouble (ws ++ '.' :: fs) := by
  have hparts : numberParts (charBytes (ws ++ '.' :: fs)) =
      ⟨false, digitValues (charBytes ws), digitValues (charBytes fs), none⟩ := by
    have hpoint := numberParts_point [] (digits_charBytes hws) (charBytes_ne_nil hne) (digits_charBytes hfs) nofun
    rw [List.append_nil] at hpoint
    rw [charBytes_append]
    exact hpoint
  refine ⟨fun c hc => ?_, isSome_double?_of_scaled (isSome_scaleByPower?_of_neg _ ?_)⟩
  · rw [List.head?_append_of_ne_nil _ hne] at hc
    exact hws c (List.mem_of_mem_head? hc)
  · rw [hparts, significand_eq (by rwa [ofDigits_append_charBytes hws hfs])]
    have hlength : 0 < (digitValues (charBytes fs)).length := by
      rw [digitValues, charBytes, List.length_map, List.length_map]
      exact List.length_pos_iff.2 hplaces
    show -((digitValues (charBytes fs)).length : Int) + 0 < 0
    omega

theorem exponentOf_charBytes (e : Int) :
    exponentOf (charBytes ((if 0 ≤ e then '+' else '-') :: Text.decimal e.natAbs)) = e := by
  split
  next he =>
    show ((ofDigits (digitValues (charBytes (Text.decimal e.natAbs))) : Nat) : Int) = e
    rw [ofDigits_decimal]
    omega
  next he =>
    show -((ofDigits (digitValues (charBytes (Text.decimal e.natAbs))) : Nat) : Int) = e
    rw [ofDigits_decimal]
    omega

theorem numberParts_exponent (hws : ∀ c ∈ ws, c.isDigit = true) (hne : ws ≠ []) (hfs : ∀ c ∈ fs, c.isDigit = true)
    (e : Int) : numberParts (charBytes (ws ++ (if fs = [] then [] else '.' :: fs) ++
        ['e', if 0 ≤ e then '+' else '-'] ++ Text.decimal e.natAbs)) =
      ⟨false, digitValues (charBytes ws), digitValues (charBytes fs), some e⟩ := by
  have hletter : Byte.isDigit 0x65 = false := rfl
  split
  next hnil =>
    subst hnil
    have hparts := numberParts_letter (charBytes ((if 0 ≤ e then '+' else '-') :: Text.decimal e.natAbs))
      (digits_charBytes hws) (charBytes_ne_nil hne) hletter (by decide)
    have hnone : digitValues (charBytes []) = [] := rfl
    rw [exponentOf_charBytes] at hparts
    rw [hnone]
    simpa using hparts
  next =>
    have hparts := numberParts_point (0x65 :: charBytes ((if 0 ≤ e then '+' else '-') :: Text.decimal e.natAbs))
      (digits_charBytes hws) (charBytes_ne_nil hne) (digits_charBytes hfs) (by rintro _ ⟨⟩; exact hletter)
    rw [endExponent, exponentOf_charBytes] at hparts
    simpa using hparts

/-! ### The notations of a double -/

section
variable {n zeros point : Nat}

/-- Digits and zeros up to the point. -/
theorem IsReadAsDouble.positional (h : (Text.decimal n).length + zeros ≤ 16) :
    IsReadAsDouble (Text.decimal n ++ List.replicate zeros '0' ++ ['.', '0']) := by
  have hplace : ∀ c ∈ ['0'], c.isDigit = true := List.forall_mem_singleton.2 rfl
  have hwhole : ∀ c ∈ Text.decimal n ++ List.replicate zeros '0', c.isDigit = true := fun c hc =>
    (List.mem_append.1 hc).elim Text.isDigit_of_mem_decimal Text.isDigit_of_mem_zeros
  have hlt := Text.ofDigitChars_lt fun c (hc : c ∈ Text.decimal n ++ List.replicate zeros '0' ++ ['0']) =>
    (List.mem_append.1 hc).elim (hwhole c) (hplace c)
  have hlength : (Text.decimal n ++ List.replicate zeros '0' ++ ['0']).length ≤ 17 := by
    simp only [List.length_append, List.length_replicate, List.length_singleton]
    omega
  have hpow : 10 ^ (Text.decimal n ++ List.replicate zeros '0' ++ ['0']).length ≤ 10 ^ 17 :=
    Nat.pow_le_pow_right (by decide) hlength
  refine .point hwhole ?_ hplace (List.cons_ne_nil _ _) (Nat.lt_of_lt_of_le hlt (Nat.le_trans hpow (by decide)))
  exact List.append_ne_nil_of_left_ne_nil (Text.decimal_ne_nil n) _

/-- Digits around the point. -/
theorem IsReadAsDouble.split (hn : n < significandLimit) (hpos : 0 < point) (hlt : point < (Text.decimal n).length) :
    IsReadAsDouble ((Text.decimal n).take point ++ '.' :: (Text.decimal n).drop point) := by
  have hdigits : ∀ c ∈ Text.decimal n, c.isDigit = true := fun c => Text.isDigit_of_mem_decimal
  refine .point (fun c hc => hdigits c (List.mem_of_mem_take hc)) ?_
    (fun c hc => hdigits c (List.mem_of_mem_drop hc)) ?_ ?_
  · rw [ne_eq, List.take_eq_nil_iff, not_or]
    exact ⟨Nat.ne_of_gt hpos, Text.decimal_ne_nil n⟩
  · rw [ne_eq, List.drop_eq_nil_iff]
    omega
  · rwa [List.take_append_drop, Text.decimal, Nat.ofDigitChars_ten_toDigits]

/-- Zeros around the point, and digits behind them. -/
theorem IsReadAsDouble.small (hn : n < significandLimit) :
    IsReadAsDouble (['0', '.'] ++ List.replicate zeros '0' ++ Text.decimal n) := by
  have hzeros : ∀ k, Nat.ofDigitChars 10 (List.replicate k '0' ++ Text.decimal n) 0 = n := by
    intro k
    rw [Nat.ofDigitChars_append, Text.ofDigitChars_zeros, Text.decimal, Nat.ofDigitChars_ten_toDigits]
  show IsReadAsDouble (['0'] ++ '.' :: (List.replicate zeros '0' ++ Text.decimal n))
  refine .point (List.forall_mem_singleton.2 rfl) (List.cons_ne_nil _ _) (fun c hc => ?_) ?_ ?_
  · exact (List.mem_append.1 hc).elim Text.isDigit_of_mem_zeros Text.isDigit_of_mem_decimal
  · exact List.append_ne_nil_of_right_ne_nil _ (Text.decimal_ne_nil n)
  · exact Nat.lt_of_le_of_lt (Nat.le_of_eq (hzeros (zeros + 1))) hn

/-- One digit, the others behind the point, and an exponent that makes up for the place of the point. -/
theorem IsReadAsDouble.scientific {e : Int} (hn : n < significandLimit)
    (h : (scaleByPower? (.ofNat n) (e - ((Text.decimal n).length - 1 : Nat))).isSome) :
    IsReadAsDouble ((Text.decimal n).take 1 ++
      (if (Text.decimal n).length = 1 then [] else '.' :: (Text.decimal n).drop 1) ++
        ['e', if 0 ≤ e then '+' else '-'] ++ Text.decimal e.natAbs) := by
  have hdigits : ∀ c ∈ Text.decimal n, c.isDigit = true := fun c => Text.isDigit_of_mem_decimal
  have hws : ∀ c ∈ (Text.decimal n).take 1, c.isDigit = true := fun c hc => hdigits c (List.mem_of_mem_take hc)
  have hfs : ∀ c ∈ (Text.decimal n).drop 1, c.isDigit = true := fun c hc => hdigits c (List.mem_of_mem_drop hc)
  have hlength : 0 < (Text.decimal n).length := List.length_pos_iff.2 (Text.decimal_ne_nil n)
  have hne : (Text.decimal n).take 1 ≠ [] := by
    rw [ne_eq, List.take_eq_nil_iff, not_or]
    exact ⟨Nat.one_ne_zero, Text.decimal_ne_nil n⟩
  have hone : (Text.decimal n).length = 1 ↔ (Text.decimal n).drop 1 = [] := by
    rw [List.drop_eq_nil_iff]
    omega
  have hvalue : ofDigits (digitValues (charBytes ((Text.decimal n).take 1)) ++
      digitValues (charBytes ((Text.decimal n).drop 1))) = n := by
    rw [ofDigits_append_charBytes hws hfs, List.take_append_drop, Text.decimal, Nat.ofDigitChars_ten_toDigits]
  have hparts := numberParts_exponent hws hne hfs e
  rw [← if_congr hone rfl rfl] at hparts
  refine ⟨fun c hc => ?_, isSome_double?_of_scaled ?_⟩
  · rw [List.append_assoc, List.append_assoc, List.head?_append_of_ne_nil _ hne] at hc
    exact hws c (List.mem_of_mem_head? hc)
  · rw [hparts, significand_eq (by rwa [hvalue]), hvalue]
    have hplaces : (digitValues (charBytes ((Text.decimal n).drop 1))).length = (Text.decimal n).length - 1 := by
      rw [digitValues, charBytes, List.length_map, List.length_map, List.length_drop]
    show (scaleByPower? (.ofNat n) (-((digitValues (charBytes ((Text.decimal n).drop 1))).length : Int) + e)).isSome
    rwa [hplaces, Int.add_comm, ← Int.sub_eq_add_neg]

end

open FiniteBinary64 (largest)

/-- Only a power that is multiplied by could lead too far, and it does not. -/
theorem isSome_scaleByPower?_trimmed {x : FiniteBinary64} {v : Binary64.DecimalValue}
    (hx : ∀ negative, x ≠ largest negative) (hnearest : x.isNearest v = true) (hzero : v.trimmed.digits ≠ 0)
    (hdigits : v.trimmed.digits ≤ 10 ^ 17) : (scaleByPower? (.ofNat v.trimmed.digits) v.trimmed.exponent).isSome := by
  by_cases hneg : v.trimmed.exponent < 0
  · exact isSome_scaleByPower?_of_neg _ hneg
  · obtain ⟨k, hk⟩ := Int.eq_ofNat_of_zero_le (Int.not_lt.1 hneg)
    rw [hk]
    exact scaleByPower?_isSome (Nat.pos_of_ne_zero hzero) hdigits
      (FiniteBinary64.trimmed_mul_pow_le_decimalBound hx hnearest hk)

/-- The text of a finite double is read, if not always as the same double. -/
theorem isSome_double?_toChars (x : FiniteBinary64) : (numberParts (charBytes x.toChars)).double?.isSome := by
  by_cases hlargest : ∃ negative, x = largest negative
  · obtain ⟨negative, rfl⟩ := hlargest
    cases negative <;> decide +kernel
  have hlargest : ∀ negative, x ≠ largest negative := fun negative hx => hlargest ⟨negative, hx⟩
  have hcases := x.shortest_cases
  unfold FiniteBinary64.toChars
  extract_lets v ds point exponent body
  suffices hbody : IsReadAsDouble body by
    split
    · exact hbody.minus
    · exact hbody.isSome
  have hcases : v.digits = 0 ∨ ∃ v', v = v'.trimmed ∧ x.isNearest v' = true ∧ v'.digits ≤ 10 ^ 17 := hcases
  unfold body
  clear_value v
  split
  next => exact @IsReadAsDouble.positional 0 0 (by decide)
  next hzero =>
  obtain ⟨v', rfl, hnearest, hle⟩ := hcases.resolve_left hzero
  have hdigits : v'.trimmed.digits ≤ 10 ^ 17 := Nat.le_trans v'.digits_trimmed_le hle
  have hfits : v'.trimmed.digits < significandLimit := Nat.lt_of_le_of_lt hdigits (by decide)
  have hpoint : point = ((Text.decimal v'.trimmed.digits).length : Int) + v'.trimmed.exponent := rfl
  split
  next hpositional => exact .positional (by omega)
  split
  next => exact .split hfits (by omega) (by omega)
  split
  next => exact .small hfits
  next =>
    have hlength : 0 < (Text.decimal v'.trimmed.digits).length := List.length_pos_iff.2 (Text.decimal_ne_nil _)
    have hexponent : exponent - ((Text.decimal v'.trimmed.digits).length - 1 : Nat) = v'.trimmed.exponent := by omega
    refine .scientific hfits ?_
    rw [hexponent]
    exact isSome_scaleByPower?_trimmed hlargest hnearest hzero hdigits

/-- The text of a double is read exactly if the double is finite. -/
theorem isSome_double?_ofBinary64 (x : Binary64) : (ofBinary64 x).double?.isSome ↔ x.IsFinite := by
  cases x with
  | finite x => exact ⟨fun _ => ⟨x, rfl⟩, fun _ => isSome_double?_toChars x⟩
  | infinite s => exact ⟨nofun, nofun⟩
  | nan => exact ⟨nofun, nofun⟩

end Json

end ClusterMetrics
