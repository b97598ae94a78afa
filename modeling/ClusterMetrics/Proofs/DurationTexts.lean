import ClusterMetrics.Duration.Text
import ClusterMetrics.Proofs.CommaLists
import ClusterMetrics.Proofs.Decimal

/-! # Durations are read as they were written

Every duration up to `2 ^ 64` seconds has a text that is read as the duration itself (`parse_format`): its text is cut
into the components it was written from, and each of them counts for what it was written for. -/

namespace ClusterMetrics.Duration

/-! ### Units -/

/-- The units, each with its nanoseconds. Of the letters before the `s` of a millionth one is the micro sign and one the
Greek letter. -/
def units : List (List Char × Nat) :=
  [(['h'], 3600 * 10 ^ 9), (['m'], 60 * 10 ^ 9), (['s'], 10 ^ 9), (['m', 's'], 10 ^ 6), (['u', 's'], 10 ^ 3),
    (['\u00b5', 's'], 10 ^ 3), (['\u03bc', 's'], 10 ^ 3), (['n', 's'], 1)]

theorem unitScale?_eq_some_iff {unit : List Char} {scale : Nat} :
    unitScale? unit = some scale ↔ (unit, scale) ∈ units := by
  constructor
  · intro h
    unfold unitScale? at h
    split at h
    all_goals first
      | cases h; decide
      | cases h
  · intro h
    have hunits : ∀ u ∈ units, unitScale? u.1 = some u.2 := by decide
    exact hunits _ h

theorem exists_mem_units {unit : List Char} (h : (unitScale? unit).isSome = true) : ∃ scale, (unit, scale) ∈ units :=
  (Option.isSome_iff_exists.1 h).imp fun _ => unitScale?_eq_some_iff.1

theorem unit_ne_nil {unit : List Char} (h : (unitScale? unit).isSome = true) : unit ≠ [] := by
  rintro rfl
  exact absurd h (by decide)

theorem not_isNumberChar_of_mem_unit {unit : List Char} (h : (unitScale? unit).isSome = true) {c : Char}
    (hc : c ∈ unit) : isNumberChar c = false ∧ Text.isBlank c = false := by
  have hunits : ∀ u ∈ units, u.1.all (fun c => !isNumberChar c && !Text.isBlank c) = true := by decide
  obtain ⟨scale, hunit⟩ := exists_mem_units h
  simpa using List.all_eq_true.1 (hunits _ hunit) c hc

/-! ### Components -/

/-- A number, not empty, and a unit there is. -/
structure Component.IsProper (k : Component) : Prop where
  number_ne_nil : k.number ≠ []
  isNumberChar : ∀ c ∈ k.number, isNumberChar c = true
  isSome_unitScale? : (unitScale? k.unit).isSome = true

def Component.toChars (k : Component) : List Char := k.number ++ k.unit

theorem components_cons_number {k : Component} {ks : List Component} (hc : isNumberChar c = true)
    (h : components cs = k :: ks) : components (c :: cs) = ⟨c :: k.number, k.unit⟩ :: ks := by
  unfold components at h ⊢
  rw [List.foldr_cons, h]
  exact if_pos hc

theorem components_cons_unit {unit : List Char} {ks : List Component} (hc : isNumberChar c = false)
    (h : components cs = ⟨[], unit⟩ :: ks) : components (c :: cs) = ⟨[], c :: unit⟩ :: ks := by
  unfold components at h ⊢
  rw [List.foldr_cons, h]
  exact if_neg (Bool.not_eq_true _ ▸ hc)

/-- Before a number a unit is a component of its own. -/
theorem components_cons_lastUnit (hc : isNumberChar c = false)
    (hcs : ∀ k ∈ (components cs).head?, k.number ≠ []) : components (c :: cs) = ⟨[], [c]⟩ :: components cs := by
  have hneg := Bool.not_eq_true _ ▸ hc
  cases h : components cs with
  | nil =>
    unfold components at h ⊢
    rw [List.foldr_cons, h]
    exact if_neg hneg
  | cons k ks =>
    obtain ⟨number, unit⟩ := k
    obtain ⟨d, ds, rfl⟩ := List.exists_cons_of_ne_nil (hcs ⟨number, unit⟩ (by rw [h]; rfl))
    unfold components at h ⊢
    rw [List.foldr_cons, h]
    exact if_neg hneg

theorem components_unit_append {unit cs : List Char} (hunit : ∀ c ∈ unit, isNumberChar c = false) (hne : unit ≠ [])
    (hcs : ∀ k ∈ (components cs).head?, k.number ≠ []) :
    components (unit ++ cs) = ⟨[], unit⟩ :: components cs := by
  induction unit with
  | nil => exact absurd rfl hne
  | cons c unit ih =>
    have hc := hunit c List.mem_cons_self
    rw [List.cons_append]
    by_cases hnil : unit = []
    · rw [hnil, List.nil_append]
      exact components_cons_lastUnit hc hcs
    · exact components_cons_unit hc (ih (fun c' hc' => hunit c' (List.mem_cons_of_mem c hc')) hnil)

theorem components_number_append {number unit cs : List Char} {ks : List Component}
    (hnumber : ∀ c ∈ number, isNumberChar c = true) (hcs : components cs = ⟨[], unit⟩ :: ks) :
    components (number ++ cs) = ⟨number, unit⟩ :: ks := by
  induction number with
  | nil => exact hcs
  | cons c number ih =>
    rw [List.cons_append]
    exact components_cons_number (hnumber c List.mem_cons_self)
      (ih fun c' hc' => hnumber c' (List.mem_cons_of_mem c hc'))

theorem components_flatMap {ks : List Component} (h : ∀ k ∈ ks, k.IsProper) :
    components (ks.flatMap Component.toChars) = ks := by
  induction ks with
  | nil => rfl
  | cons k ks ih =>
    obtain ⟨-, hnumber, hunit⟩ := h k List.mem_cons_self
    have hunitChars : ∀ c ∈ k.unit, isNumberChar c = false := fun c hc => (not_isNumberChar_of_mem_unit hunit hc).1
    have hrest := ih fun k' hk' => h k' (List.mem_cons_of_mem k hk')
    have hhead : ∀ k' ∈ (components (ks.flatMap Component.toChars)).head?, k'.number ≠ [] := by
      rw [hrest]
      exact fun k' hk' => (h k' (List.mem_cons_of_mem k (List.mem_of_mem_head? hk'))).number_ne_nil
    rw [List.flatMap_cons, Component.toChars, List.append_assoc,
      components_number_append hnumber (components_unit_append hunitChars (unit_ne_nil hunit) hhead), hrest]

theorem flatMap_components (cs : List Char) : (components cs).flatMap Component.toChars = cs := by
  induction cs with
  | nil => rfl
  | cons c cs ih =>
    unfold components at ih ⊢
    rw [List.foldr_cons]
    generalize List.foldr _ _ cs = rest at ih
    subst ih
    split
    · cases rest <;> rfl
    · rcases rest with - | ⟨⟨- | ⟨d, number⟩, unit⟩, rest⟩ <;> rfl

theorem isNumberChar_of_mem_components {cs : List Char} :
    ∀ k ∈ components cs, ∀ c ∈ k.number, isNumberChar c = true := by
  induction cs with
  | nil => exact List.forall_mem_nil _
  | cons c cs ih =>
    unfold components at ih ⊢
    rw [List.foldr_cons]
    generalize List.foldr _ _ cs = rest at ih
    split
    case isTrue hc =>
      cases rest with
      | nil => simpa using hc
      | cons k rest =>
        obtain ⟨hk, hrest⟩ := List.forall_mem_cons.1 ih
        exact List.forall_mem_cons.2 ⟨List.forall_mem_cons.2 ⟨hc, hk⟩, hrest⟩
    case isFalse =>
      rcases rest with - | ⟨⟨- | ⟨d, number⟩, unit⟩, rest⟩
      · simp
      · exact List.forall_mem_cons.2 ⟨List.forall_mem_nil _, (List.forall_mem_cons.1 ih).2⟩
      · exact List.forall_mem_cons.2 ⟨List.forall_mem_nil _, ih⟩

/-! ### Numbers -/

theorem isNumberChar_of_isDigit {c : Char} (h : c.isDigit = true) : isNumberChar c = true := by
  rw [isNumberChar, h, Bool.true_or]

theorem not_isBlank_of_isNumberChar {c : Char} (h : isNumberChar c = true) : Text.isBlank c = false := by
  rw [isNumberChar, Bool.or_eq_true, beq_iff_eq] at h
  have hrange : 46 ≤ c.toNat ∧ c.toNat ≤ 57 := by
    rcases h with hdigit | rfl
    · exact (Text.toNat_of_isDigit hdigit).imp_left (Nat.le_trans (by decide))
    · decide
  simp only [Text.isBlank, Bool.or_eq_false_iff, Bool.and_eq_false_iff, decide_eq_false_iff_not, beq_eq_false_iff_ne]
  omega

theorem point_notMem_of_isDigit {cs : List Char} (h : ∀ c ∈ cs, c.isDigit = true) : '.' ∉ cs := fun hmem =>
  absurd (h '.' hmem) (by decide)

theorem isDigit_of_isNumberChar {c : Char} (h : isNumberChar c = true) (hpoint : c ≠ '.') : c.isDigit = true := by
  rw [isNumberChar, Bool.or_eq_true] at h
  exact h.resolve_right fun heq => hpoint (beq_iff_eq.1 heq)

/-- A number is cut at its first point, if it has one. -/
theorem cut_cases {number whole fraction : List Char}
    (h : (Text.cutAt (· == '.') number).getD (number, []) = (whole, fraction)) :
    '.' ∉ whole ∧ (number = whole ∧ fraction = [] ∨ number = whole ++ '.' :: fraction) := by
  by_cases hpoint : '.' ∈ number
  · obtain ⟨before, behind, rfl, hbefore⟩ := List.eq_append_cons_of_mem hpoint
    rw [Text.cutAt_append hbefore, Option.getD_some] at h
    cases h
    exact ⟨hbefore, .inr rfl⟩
  · rw [Text.cutAt_eq_none hpoint, Option.getD_none] at h
    cases h
    exact ⟨hpoint, .inl ⟨rfl, rfl⟩⟩

theorem isDigit_of_mem_cut {number whole fraction : List Char} (hnumber : ∀ c ∈ number, isNumberChar c = true)
    (h : (Text.cutAt (· == '.') number).getD (number, []) = (whole, fraction)) (hfraction : '.' ∉ fraction) :
    ∀ c ∈ whole ++ fraction, c.isDigit = true := by
  obtain ⟨hwhole, hcases⟩ := cut_cases h
  intro c hc
  have hpoint : c ≠ '.' := by
    rintro rfl
    exact (List.mem_append.1 hc).elim hwhole hfraction
  refine isDigit_of_isNumberChar (hnumber c ?_) hpoint
  rcases hcases with ⟨rfl, rfl⟩ | rfl
  · rwa [List.append_nil] at hc
  · exact (List.mem_append.1 hc).elim (List.mem_append_left _) fun hc =>
      List.mem_append_right _ (List.mem_cons_of_mem _ hc)

theorem fractionValue_append_zero (place : Nat) (ds : List Char) :
    fractionValue place (ds ++ ['0']) = fractionValue place ds := by
  induction ds generalizing place with
  | nil => rw [List.nil_append, fractionValue, fractionValue, fractionValue, Nat.sub_self, Nat.zero_mul]
  | cons d ds ih => rw [List.cons_append, fractionValue, fractionValue, ih]

/-- Zeros at the end of a fraction do not count. -/
theorem fractionValue_dropEndWhile (place : Nat) (ds : List Char) :
    fractionValue place (Text.dropEndWhile (· == '0') ds) = fractionValue place ds := by
  have heq : ∀ cs, Text.dropEndWhile (· == '0') cs = List.rdropWhile (· == '0') cs := fun _ => rfl
  induction ds using List.reverseRecOn with
  | nil => rfl
  | append_singleton ds d ih =>
    rw [heq, List.rdropWhile_concat, ← heq]
    split
    next hzero => rw [ih, beq_iff_eq.1 hzero, fractionValue_append_zero]
    next => rfl

theorem fractionValue_pow (ds : List Char) (k : Nat) :
    fractionValue (10 ^ (ds.length + k)) ds = Nat.ofDigitChars 10 ds 0 * 10 ^ k := by
  induction ds with
  | nil => rw [fractionValue, Nat.ofDigitChars_nil, Nat.zero_mul]
  | cons d ds ih =>
    have hplace : 10 ^ ((d :: ds).length + k) / 10 = 10 ^ (ds.length + k) := by
      rw [List.length_cons, Nat.add_right_comm, Nat.pow_succ]
      exact Nat.mul_div_cancel _ (by decide)
    rw [fractionValue, hplace, ih, Nat.ofDigitChars_cons, Nat.mul_zero, Nat.zero_add,
      @Nat.ofDigitChars_eq_ofDigitChars_zero _ (_ - _)]
    ring

theorem fractionValue_decimalPadded {places n : Nat} (hp : 0 < places) (h : n < 10 ^ places) :
    fractionValue (10 ^ places) (Text.decimalPadded places n) = n := by
  have hvalue := fractionValue_pow (Text.decimalPadded places n) 0
  rwa [Text.length_decimalPadded hp h, Text.ofDigitChars_decimalPadded, Nat.pow_zero, Nat.mul_one] at hvalue

theorem fractionValue_trimmed {places n : Nat} (hp : 0 < places) (h : n < 10 ^ places) :
    fractionValue (10 ^ places) (Text.dropEndWhile (· == '0') (Text.decimalPadded places n)) = n := by
  rw [fractionValue_dropEndWhile, fractionValue_decimalPadded hp h]

theorem scaled?_eq {number whole fraction : List Char} {scale : Nat}
    (hnumber : (Text.cutAt (· == '.') number).getD (number, []) = (whole, fraction)) (hne : whole ++ fraction ≠ [])
    (hpoint : '.' ∉ fraction) (hscale : 0 < scale) : scaled? number scale =
      if Nat.ofDigitChars 10 whole 0 * scale + fractionValue scale fraction < magnitudeLimit then
        some (Nat.ofDigitChars 10 whole 0 * scale + fractionValue scale fraction)
      else none := by
  have hwhole := Nat.le_mul_of_pos_right (Nat.ofDigitChars 10 whole 0) hscale
  have hempty : (whole.isEmpty && fraction.isEmpty) = false := by
    rw [← Bool.not_eq_true, Bool.and_eq_true, List.isEmpty_iff, List.isEmpty_iff]
    exact mt List.append_eq_nil_iff.2 hne
  rw [scaled?, hnumber]
  dsimp only
  rw [hempty, List.contains_eq_mem, decide_eq_false hpoint, Bool.false_or, if_neg Bool.false_ne_true]
  split
  case isTrue => rfl
  case isFalse hlarge => rw [if_neg (by omega)]

theorem scaled?_eq_some {number whole fraction : List Char} {n scale : Nat}
    (hnumber : (Text.cutAt (· == '.') number).getD (number, []) = (whole, fraction)) (hwhole : whole = Text.decimal n)
    (hfraction : ∀ c ∈ fraction, c.isDigit = true) (hscale : 0 < scale)
    (h : n * scale + fractionValue scale fraction < magnitudeLimit) :
    scaled? number scale = some (n * scale + fractionValue scale fraction) := by
  have hvalue : Nat.ofDigitChars 10 whole 0 = n := hwhole ▸ Nat.ofDigitChars_ten_toDigits
  have hne : whole ++ fraction ≠ [] := List.append_ne_nil_of_left_ne_nil (hwhole ▸ Text.decimal_ne_nil n) _
  rw [scaled?_eq hnumber hne (point_notMem_of_isDigit hfraction) hscale, hvalue, if_pos h]

theorem scaled?_decimal {n scale : Nat} (hscale : 0 < scale) (h : n * scale < magnitudeLimit) :
    scaled? (Text.decimal n) scale = some (n * scale) := by
  have hcut : Text.cutAt (· == '.') (Text.decimal n) = none :=
    Text.cutAt_eq_none (point_notMem_of_isDigit fun _ => Text.isDigit_of_mem_decimal)
  have hnumber : (Text.cutAt (· == '.') (Text.decimal n)).getD (Text.decimal n, []) = (Text.decimal n, []) := by
    rw [hcut]
    rfl
  exact scaled?_eq_some hnumber rfl nofun hscale h

theorem isDigit_of_mem_dropEndWhile {cs : List Char} {p : Char → Bool} (h : ∀ c ∈ cs, c.isDigit = true) :
    ∀ c ∈ Text.dropEndWhile p cs, c.isDigit = true := fun c hc =>
  h c ((List.rdropWhile_prefix p (l := cs)).subset hc)

theorem scaled?_fixedPoint {places value : Nat} (hp : 0 < places) (h : value < magnitudeLimit) :
    scaled? (fixedPoint places value) (10 ^ places) = some value := by
  have hpow : 0 < 10 ^ places := Nat.pow_pos (by decide)
  have hvalue : value / 10 ^ places * 10 ^ places + value % 10 ^ places = value := Nat.div_add_mod' ..
  have hnat : Nat.pow 10 places = 10 ^ places := rfl
  simp only [fixedPoint, hnat]
  split
  next hzero =>
    rw [hzero, Nat.add_zero] at hvalue
    rw [scaled?_decimal hpow (by omega), hvalue]
  next =>
    have hdigits : ∀ c ∈ Text.dropEndWhile (· == '0') (Text.decimalPadded places (value % 10 ^ places)),
        c.isDigit = true := isDigit_of_mem_dropEndWhile fun c => Text.isDigit_of_mem_decimalPadded
    have hcut := Text.cutAt_append
      (point_notMem_of_isDigit fun c => Text.isDigit_of_mem_decimal (n := value / 10 ^ places) (c := c))
      (Text.dropEndWhile (· == '0') (Text.decimalPadded places (value % 10 ^ places)))
    have hfraction := fractionValue_trimmed hp (Nat.mod_lt value hpow)
    rw [scaled?_eq_some (by rw [hcut]; rfl) rfl hdigits hpow (by omega), hfraction, hvalue]

theorem fixedPoint_ne_nil (places value : Nat) : fixedPoint places value ≠ [] := by
  have hne := Text.decimal_ne_nil (value / Nat.pow 10 places)
  simp only [fixedPoint]
  split
  · exact hne
  · exact List.append_ne_nil_of_left_ne_nil hne _

theorem isNumberChar_of_mem_fixedPoint {places value : Nat} {c : Char} (h : c ∈ fixedPoint places value) :
    isNumberChar c = true := by
  have hwhole : ∀ c ∈ Text.decimal (value / Nat.pow 10 places), isNumberChar c = true := fun c hc =>
    isNumberChar_of_isDigit (Text.isDigit_of_mem_decimal hc)
  simp only [fixedPoint] at h
  split at h
  · exact hwhole c h
  rcases List.mem_append.1 h with h | h
  · exact hwhole c h
  rcases List.mem_cons.1 h with rfl | h
  · rfl
  · exact isNumberChar_of_isDigit (isDigit_of_mem_dropEndWhile (fun _ => Text.isDigit_of_mem_decimalPadded) c h)

/-! ### Durations -/

/-- The text is made of proper components that come to `value` nanoseconds. -/
def Spells (cs : List Char) (value : Nat) : Prop :=
  ∃ ks : List Component, (∀ k ∈ ks, k.IsProper) ∧ cs = ks.flatMap Component.toChars ∧
    ∀ total, total + value < magnitudeLimit → ks.foldlM addComponent total = .ok (total + value)

theorem Spells.nil : Spells [] 0 := ⟨[], nofun, rfl, fun _ _ => rfl⟩

theorem Spells.append {cs ds : List Char} {v w : Nat} : Spells cs v → Spells ds w → Spells (cs ++ ds) (v + w) := by
  rintro ⟨ks, hks, rfl, hv⟩ ⟨js, hjs, rfl, hw⟩
  refine ⟨ks ++ js, fun k hk => (List.mem_append.1 hk).elim (hks k) (hjs k), List.flatMap_append.symm,
    fun total h => ?_⟩
  rw [List.foldlM_append, hv total (by omega)]
  exact (hw (total + v) (by omega)).trans (by rw [Nat.add_assoc])

theorem Spells.ite {cs : List Char} {v : Nat} {p : Prop} [Decidable p] (h : Spells cs v) (hzero : ¬ p → v = 0) :
    Spells (if p then cs else []) v := by
  split
  · exact h
  next hp => exact hzero hp ▸ .nil

theorem Spells.component {number unit : List Char} {scale v : Nat} (hne : number ≠ [])
    (hnumber : ∀ c ∈ number, isNumberChar c = true) (hunit : unitScale? unit = some scale)
    (hvalue : scaled? number scale = some v) : Spells (number ++ unit) v := by
  have hsome : (unitScale? unit).isSome = true := by rw [hunit]; rfl
  refine ⟨[⟨number, unit⟩], fun k hk => List.mem_singleton.1 hk ▸ ⟨hne, hnumber, hsome⟩, (List.append_nil _).symm,
    fun total h => ?_⟩
  have hadd : addComponent total ⟨number, unit⟩ = .ok (total + v) := by
    rw [addComponent, if_neg (by simpa using unit_ne_nil hsome), if_neg (by simpa using hne), hunit]
    simp only [hvalue]
    exact if_pos h
  rw [List.foldlM_cons, hadd]
  rfl

theorem Spells.decimal (unit : List Char) {n scale : Nat} (hunit : unitScale? unit = some scale) (hscale : 0 < scale)
    (h : n * scale < magnitudeLimit) : Spells (Text.decimal n ++ unit) (n * scale) :=
  .component (Text.decimal_ne_nil n) (fun _ hc => isNumberChar_of_isDigit (Text.isDigit_of_mem_decimal hc)) hunit
    (scaled?_decimal hscale h)

theorem Spells.fixedPoint (places : Nat) (unit : List Char) {value : Nat} (hunit : unitScale? unit = some (10 ^ places))
    (hp : 0 < places) (h : value < magnitudeLimit) : Spells (Duration.fixedPoint places value ++ unit) value :=
  .component (fixedPoint_ne_nil _ _) (fun _ => isNumberChar_of_mem_fixedPoint) hunit (scaled?_fixedPoint hp h)

theorem spells_toChars (d : Duration) : Spells d.toChars d.nanoseconds := by
  have hlt := d.nanoseconds_lt
  have hn := d.nanoseconds_eq
  have hseconds := d.seconds_lt
  have hsub : d.subsecond < 1000000000 := Nat.mod_lt _ (by decide)
  have hlimit : magnitudeLimit = 0x100000000000000000000000000000000 := rfl
  unfold toChars
  dsimp only
  split
  next hzero =>
    rw [hzero]
    exact .decimal ['s'] (n := 0) rfl (by decide) (by decide)
  split
  next =>
    have hunit := Spells.decimal ['n', 's'] (n := d.nanoseconds) rfl (by decide) (by omega)
    rwa [Nat.mul_one] at hunit
  split
  next => exact .fixedPoint 3 _ rfl (by decide) (by omega)
  split
  next => exact .fixedPoint 6 _ rfl (by decide) (by omega)
  next =>
    have hhours : Spells _ (d.seconds / 3600 * 3600000000000) :=
      .ite (p := 0 < d.seconds / 3600) (.decimal ['h'] rfl (by decide) (by omega)) (by omega)
    have hminutes : Spells _ (d.seconds % 3600 / 60 * 60000000000) :=
      .ite (p := 0 < d.seconds / 3600 ∨ 0 < d.seconds % 3600 / 60)
        (.decimal ['m'] rfl (by decide) (by omega)) (by omega)
    have hrest : Spells _ (d.seconds % 60 * 1000000000 + d.subsecond) :=
      .fixedPoint 9 ['s'] rfl (by decide) (by omega)
    have hsum : d.seconds / 3600 * 3600000000000 + d.seconds % 3600 / 60 * 60000000000 +
        (d.seconds % 60 * 1000000000 + d.subsecond) = d.nanoseconds := by omega
    rw [List.append_assoc _ _ ['s'], ← hsum]
    exact (hhours.append hminutes).append hrest

theorem toChars_ne_nil (d : Duration) : d.toChars ≠ [] := by
  unfold toChars
  dsimp only
  split
  · nofun
  repeat' split
  all_goals exact List.append_ne_nil_of_right_ne_nil _ nofun

theorem Component.IsProper.isBlank_eq_false {k : Component} (h : k.IsProper) {c : Char} (hc : c ∈ k.toChars) :
    Text.isBlank c = false := by
  rcases List.mem_append.1 hc with hc | hc
  · exact not_isBlank_of_isNumberChar (h.isNumberChar c hc)
  · exact (not_isNumberChar_of_mem_unit h.isSome_unitScale? hc).2

theorem Spells.isBlank_eq_false {cs : List Char} {v : Nat} (h : Spells cs v) {c : Char} (hc : c ∈ cs) :
    Text.isBlank c = false := by
  obtain ⟨ks, hproper, rfl, -⟩ := h
  obtain ⟨k, hk, hc⟩ := List.mem_flatMap.1 hc
  exact (hproper k hk).isBlank_eq_false hc

/-- A bare zero has no unit. -/
theorem flatMap_ne_zero {ks : List Component} (h : ∀ k ∈ ks, k.IsProper) : ks.flatMap Component.toChars ≠ ['0'] := by
  intro hzero
  have hks := components_flatMap h
  rw [hzero] at hks
  exact unit_ne_nil (h ⟨['0'], []⟩ (hks ▸ List.mem_singleton_self _)).isSome_unitScale? rfl

/-- A text of components is read as what they come to. -/
theorem ofChars_of_spells {cs : List Char} {d : Duration} (hne : cs ≠ []) (h : Spells cs d.nanoseconds) :
    ofChars cs = .ok d := by
  obtain ⟨ks, hproper, hcs, hsum⟩ := h
  have hzero : cs ≠ ['0'] := hcs ▸ flatMap_ne_zero hproper
  have hlt := d.nanoseconds_lt
  have hlimit : magnitudeLimit = 0x100000000000000000000000000000000 := rfl
  have hd : ofNanoseconds? d.nanoseconds = some d := dif_pos hlt
  rw [ofChars, if_neg (by simpa using hne), if_neg hzero, hcs, components_flatMap hproper, hsum 0 (by omega),
    Nat.zero_add]
  simp only [bind, Except.bind, hd]

theorem parse_of_spells {cs : List Char} {d : Duration} (hne : cs ≠ []) (h : Spells cs d.nanoseconds) :
    parse (String.ofList cs) = .ok d := by
  have htrim : Text.trim cs = cs :=
    Text.trim_eq_self (fun c hc => h.isBlank_eq_false (List.mem_of_mem_head? hc)) fun c hc =>
      h.isBlank_eq_false (List.mem_of_mem_getLast? hc)
  rw [parse, String.toList_ofList, htrim, ofChars_of_spells hne h]
  rfl

theorem parse_format (d : Duration) : parse d.format = .ok d := parse_of_spells d.toChars_ne_nil d.spells_toChars

end ClusterMetrics.Duration
