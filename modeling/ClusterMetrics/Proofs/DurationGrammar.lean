import Mathlib
import ClusterMetrics.Proofs.DurationSteps

/-! # Which texts are durations

Without the blanks at its ends a text is a duration exactly if it is a bare `0` or a row of amounts, each a number and
its unit, that come to less than `2 ^ 64` seconds. It is read as what they come to, a digit of a fraction counting for
its place in whole nanoseconds; any other text is an error that shows the text as it came (`parse_eq_ok_iff_denotes`).
Sums out of range are found by the checks on numbers of 128 bits; the steps without a check never fail (`parse?`). -/

namespace ClusterMetrics.Duration

/-! ### The grammar -/

def digitValue (c : Char) : Nat := c.toNat - '0'.toNat

/-- A number of units as it is written: digits, at most one point among them, and the unit. -/
structure Amount where
  whole : List Char
  /-- The digits behind the point, if there is a point. -/
  fraction? : Option (List Char)
  unit : List Char
  scale : Nat
  isDigit : ∀ c ∈ whole ++ fraction?.getD [], c.isDigit = true
  ne_nil : whole ++ fraction?.getD [] ≠ []
  mem_units : (unit, scale) ∈ units

namespace Amount

def fraction (a : Amount) : List Char := a.fraction?.getD []

def number (a : Amount) : List Char := a.whole ++ a.fraction?.elim [] ('.' :: ·)

def toChars (a : Amount) : List Char := a.number ++ a.unit

/-- The nanoseconds, where the place of a digit behind the point is rounded down. -/
def value (a : Amount) : Nat :=
  Nat.ofDigitChars 10 a.whole 0 * a.scale +
    ∑ i : Fin a.fraction.length, digitValue (a.fraction.get i) * (a.scale / 10 ^ (i + 1 : Nat))

end Amount

/-- The texts of the grammar, each with what it comes to, be it in range or not. -/
def Denotes (cs : List Char) (n : Nat) : Prop :=
  (cs = ['0'] ∧ n = 0) ∨ ∃ as : List Amount, as ≠ [] ∧ as.flatMap Amount.toChars = cs ∧ (as.map Amount.value).sum = n

/-! ### Amounts are components -/

theorem fractionValue_eq_sum (place : Nat) (ds : List Char) :
    fractionValue place ds = ∑ i : Fin ds.length, digitValue (ds.get i) * (place / 10 ^ (i + 1 : Nat)) := by
  induction ds generalizing place with
  | nil => rfl
  | cons d ds ih =>
    refine Eq.trans ?_ (Fin.sum_univ_succ (n := ds.length) fun i =>
      digitValue ((d :: ds).get i) * (place / 10 ^ (i + 1 : Nat))).symm
    have hplaces : ∀ i : Fin ds.length, place / 10 / 10 ^ (i + 1 : Nat) = place / 10 ^ (i.succ + 1 : Nat) := fun i => by
      rw [Nat.div_div_eq_div_mul, ← Nat.pow_succ', Fin.val_succ]
    rw [fractionValue, ih]
    simp only [hplaces]
    rfl

namespace Amount
variable {a b : Amount}

theorem scale_pos (a : Amount) : 0 < a.scale := by
  have hunits : ∀ u ∈ units, 0 < u.2 := by decide
  exact hunits _ a.mem_units

theorem value_eq (a : Amount) :
    a.value = Nat.ofDigitChars 10 a.whole 0 * a.scale + fractionValue a.scale a.fraction := by
  rw [value, fractionValue_eq_sum]

theorem isDigit_of_mem_whole (a : Amount) : ∀ c ∈ a.whole, c.isDigit = true := fun c hc =>
  a.isDigit c (List.mem_append_left _ hc)

theorem isDigit_of_mem_fraction (a : Amount) : ∀ c ∈ a.fraction, c.isDigit = true := fun c hc =>
  a.isDigit c (List.mem_append_right _ hc)

/-- There is a point, or no digit behind one. -/
theorem number_cases (a : Amount) :
    (a.number = a.whole ∧ a.fraction = []) ∨ a.number = a.whole ++ '.' :: a.fraction := by
  unfold number fraction
  cases a.fraction? with
  | none => exact .inl ⟨List.append_nil _, rfl⟩
  | some ds => exact .inr rfl

/-- The number is cut where it was put together. -/
theorem cutAt_number (a : Amount) :
    (Text.cutAt (· == '.') a.number).getD (a.number, []) = (a.whole, a.fraction) := by
  have hpoint := point_notMem_of_isDigit a.isDigit_of_mem_whole
  rcases a.number_cases with ⟨hnumber, hfraction⟩ | hnumber
  · rw [hnumber, hfraction, Text.cutAt_eq_none hpoint]
    rfl
  · rw [hnumber, Text.cutAt_append hpoint]
    rfl

theorem scaled?_number (a : Amount) :
    scaled? a.number a.scale = if a.value < magnitudeLimit then some a.value else none := by
  rw [scaled?_eq a.cutAt_number a.ne_nil (point_notMem_of_isDigit a.isDigit_of_mem_fraction) a.scale_pos, value_eq]

def component (a : Amount) : Component := ⟨a.number, a.unit⟩

theorem number_ne_nil (a : Amount) : a.number ≠ [] := by
  intro hnil
  rcases a.number_cases with ⟨hnumber, hfraction⟩ | hnumber
  · have happend : a.whole ++ a.fraction = [] := by rw [hfraction, List.append_nil, ← hnumber, hnil]
    exact a.ne_nil happend
  · exact List.append_ne_nil_of_right_ne_nil a.whole (List.cons_ne_nil '.' a.fraction) (hnumber.symm.trans hnil)

theorem isNumberChar_of_mem_number (a : Amount) {c : Char} (hc : c ∈ a.number) : isNumberChar c = true := by
  rcases a.number_cases with ⟨hnumber, -⟩ | hnumber
  · rw [hnumber] at hc
    exact isNumberChar_of_isDigit (a.isDigit_of_mem_whole c hc)
  · rw [hnumber, List.mem_append, List.mem_cons] at hc
    rcases hc with hwhole | rfl | hfraction
    · exact isNumberChar_of_isDigit (a.isDigit_of_mem_whole c hwhole)
    · rfl
    · exact isNumberChar_of_isDigit (a.isDigit_of_mem_fraction c hfraction)

theorem isProper_component (a : Amount) : a.component.IsProper where
  number_ne_nil := a.number_ne_nil
  isNumberChar _ := a.isNumberChar_of_mem_number
  isSome_unitScale? := Option.isSome_iff_exists.2 ⟨_, unitScale?_eq_some_iff.2 a.mem_units⟩

/-- The number and the unit tell the value. -/
theorem value_congr (h : a.component = b.component) : a.value = b.value := by
  obtain ⟨hnumber, hunit⟩ := Component.mk.inj h
  have hcut := a.cutAt_number
  rw [hnumber, b.cutAt_number] at hcut
  have hscale := unitScale?_eq_some_iff.2 a.mem_units
  rw [hunit, unitScale?_eq_some_iff.2 b.mem_units] at hscale
  rw [value_eq, value_eq, (Prod.mk.inj hcut).1, (Prod.mk.inj hcut).2, Option.some.inj hscale]

/-- Amounts with the same components have the same values, row by row. -/
theorem map_value_congr {as bs : List Amount} (h : as.map component = bs.map component) :
    as.map value = bs.map value := by
  have hfactors : value.FactorsThrough component := fun _ _ => value_congr
  have hmap : ∀ as : List Amount,
      as.map value = (as.map component).map (Function.extend component value fun _ => 0) :=
    fun as => by rw [List.map_map, hfactors.extend_comp]
  rw [hmap, h, ← hmap]

theorem spells (h : a.value < magnitudeLimit) : Spells a.toChars a.value :=
  .component a.number_ne_nil (fun _ => a.isNumberChar_of_mem_number)
    (unitScale?_eq_some_iff.2 a.mem_units) (a.scaled?_number.trans (if_pos h))

theorem spells_flatMap {as : List Amount} (h : (as.map value).sum < magnitudeLimit) :
    Spells (as.flatMap toChars) (as.map value).sum := by
  induction as with
  | nil => exact .nil
  | cons a as ih =>
    rw [List.map_cons, List.sum_cons] at h ⊢
    rw [List.flatMap_cons]
    exact (spells (by omega)).append (ih (by omega))

end Amount

/-! ### Components are amounts -/

/-- A number that is read has a digit and no second point. -/
theorem ne_nil_of_scaled? {number whole fraction : List Char} {scale v : Nat}
    (hnumber : (Text.cutAt (· == '.') number).getD (number, []) = (whole, fraction))
    (h : scaled? number scale = some v) : whole ++ fraction ≠ [] ∧ '.' ∉ fraction := by
  rw [scaled?, hnumber] at h
  dsimp only at h
  split at h
  case isTrue => cases h
  case isFalse hshape =>
    simpa [List.append_eq_nil_iff] using hshape

theorem exists_amount {k : Component} {scale v : Nat} (hnumber : ∀ c ∈ k.number, isNumberChar c = true)
    (hunit : unitScale? k.unit = some scale) (h : scaled? k.number scale = some v) :
    ∃ a : Amount, a.component = k ∧ a.value = v := by
  obtain ⟨number, unit⟩ := k
  have hvalue : ∀ a : Amount, a.number = number → a.scale = scale → a.value = v := by
    rintro a rfl rfl
    rw [a.scaled?_number] at h
    exact Option.some.inj ((Option.ite_none_right_eq_some.1 h).2)
  rcases hcut : (Text.cutAt (· == '.') number).getD (number, []) with ⟨whole, fraction⟩
  obtain ⟨hne, hpoint⟩ := ne_nil_of_scaled? hcut h
  have hdigits := isDigit_of_mem_cut hnumber hcut hpoint
  rcases (cut_cases hcut).2 with ⟨rfl, rfl⟩ | rfl
  · have happend : number ++ [] = number := List.append_nil number
    exact ⟨⟨number, none, unit, scale, hdigits, hne, unitScale?_eq_some_iff.1 hunit⟩,
      congrArg (Component.mk · unit) happend, hvalue _ happend rfl⟩
  · exact ⟨⟨whole, some fraction, unit, scale, hdigits, hne, unitScale?_eq_some_iff.1 hunit⟩, rfl, hvalue _ rfl rfl⟩

theorem addComponent_eq_ok {k : Component} {total sum : Nat} (h : addComponent total k = .ok sum) :
    ∃ scale v, unitScale? k.unit = some scale ∧ scaled? k.number scale = some v ∧ sum = total + v := by
  unfold addComponent at h
  split at h
  · cases h
  split at h
  · cases h
  split at h
  case h_1 => cases h
  case h_2 scale hunit =>
    split at h
    case h_1 => cases h
    case h_2 v hvalue =>
      split at h
      · cases h
        exact ⟨scale, v, hunit, hvalue, rfl⟩
      · cases h

/-- Components that add up are amounts. -/
theorem exists_amounts {ks : List Component} (hks : ∀ k ∈ ks, ∀ c ∈ k.number, isNumberChar c = true) {total sum : Nat}
    (h : ks.foldlM addComponent total = .ok sum) :
    ∃ as : List Amount, as.map Amount.component = ks ∧ sum = total + (as.map Amount.value).sum := by
  induction ks generalizing total with
  | nil =>
    cases h
    exact ⟨[], rfl, rfl⟩
  | cons k ks ih =>
    obtain ⟨hk, hrest⟩ := List.forall_mem_cons.1 hks
    rw [List.foldlM_cons] at h
    cases hadd : addComponent total k with
    | error fault =>
      rw [hadd] at h
      cases h
    | ok next =>
      rw [hadd] at h
      obtain ⟨scale, v, hunit, hvalue, rfl⟩ := addComponent_eq_ok hadd
      obtain ⟨a, rfl, rfl⟩ := exists_amount hk hunit hvalue
      obtain ⟨as, rfl, rfl⟩ := ih hrest h
      exact ⟨a :: as, rfl, by rw [List.map_cons, List.sum_cons, Nat.add_assoc]⟩

/-! ### What is read -/

theorem Amount.flatMap_component (as : List Amount) :
    (as.map component).flatMap Component.toChars = as.flatMap toChars := List.flatMap_map ..

theorem Amount.isProper_of_mem_map {as : List Amount} : ∀ k ∈ as.map component, k.IsProper := by
  intro k hk
  obtain ⟨a, -, rfl⟩ := List.mem_map.1 hk
  exact a.isProper_component

theorem Amount.flatMap_ne_nil {as : List Amount} (h : as ≠ []) : as.flatMap toChars ≠ [] := by
  obtain ⟨a, as, rfl⟩ := List.exists_cons_of_ne_nil h
  rw [List.flatMap_cons]
  exact List.append_ne_nil_of_left_ne_nil (List.append_ne_nil_of_left_ne_nil a.number_ne_nil _) _

theorem ofChars_of_denotes {cs : List Char} {d : Duration} (h : Denotes cs d.nanoseconds) : ofChars cs = .ok d := by
  have hlt := d.nanoseconds_lt
  rcases h with ⟨rfl, hzero⟩ | ⟨as, hne, rfl, hsum⟩
  · exact congrArg Except.ok (Duration.ext hzero.symm)
  · have hlimit : magnitudeLimit = 0x100000000000000000000000000000000 := rfl
    have hspells : Spells (as.flatMap Amount.toChars) (as.map Amount.value).sum := Amount.spells_flatMap (by omega)
    rw [hsum] at hspells
    exact ofChars_of_spells (Amount.flatMap_ne_nil hne) hspells

theorem nanoseconds_of_ofNanoseconds? {n : Nat} {d : Duration} (h : ofNanoseconds? n = some d) : d.nanoseconds = n := by
  unfold ofNanoseconds? at h
  split at h
  · cases h
    rfl
  · cases h

theorem denotes_of_ofChars {cs : List Char} {d : Duration} (h : ofChars cs = .ok d) : Denotes cs d.nanoseconds := by
  unfold ofChars at h
  split at h
  · cases h
  case isFalse hne =>
  split at h
  case isTrue hzero =>
    cases h
    exact .inl ⟨hzero, rfl⟩
  case isFalse =>
  cases hfold : (components cs).foldlM addComponent 0 with
  | error fault =>
    rw [hfold] at h
    cases h
  | ok total =>
    rw [hfold] at h
    obtain ⟨as, hcomponents, rfl⟩ := exists_amounts isNumberChar_of_mem_components hfold
    have hcs : as.flatMap Amount.toChars = cs := by rw [← Amount.flatMap_component, hcomponents, flatMap_components]
    refine .inr ⟨as, ?_, hcs, ?_⟩
    · rintro rfl
      exact hne (List.isEmpty_iff.2 hcs.symm)
    · dsimp only [bind, Except.bind] at h
      split at h
      next hd =>
        cases h
        rw [nanoseconds_of_ofNanoseconds? hd, Nat.zero_add]
      next => cases h

/-- A text of the grammar comes to one number only. -/
theorem Denotes.unique {cs : List Char} {m n : Nat} (hm : Denotes cs m) (hn : Denotes cs n) : m = n := by
  have hzero : ∀ as : List Amount, as.flatMap Amount.toChars ≠ ['0'] := fun as =>
    Amount.flatMap_component as ▸ flatMap_ne_zero Amount.isProper_of_mem_map
  rcases hm with ⟨rfl, rfl⟩ | ⟨as, -, rfl, rfl⟩ <;> rcases hn with ⟨hcs, rfl⟩ | ⟨bs, -, hcs, rfl⟩
  · rfl
  · exact absurd hcs (hzero bs)
  · exact absurd hcs (hzero as)
  · have hcomponents := congrArg components hcs
    rw [← Amount.flatMap_component, ← Amount.flatMap_component, components_flatMap Amount.isProper_of_mem_map,
      components_flatMap Amount.isProper_of_mem_map] at hcomponents
    rw [Amount.map_value_congr hcomponents]

theorem parse_eq_ok_iff {input : String} {d : Duration} :
    parse input = .ok d ↔ ofChars (Text.trim input.toList) = .ok d := by
  rw [parse]
  cases ofChars (Text.trim input.toList) with
  | error fault =>
    constructor
    · intro h
      cases h
    · intro h
      cases h
  | ok e => exact ⟨fun h => congrArg Except.ok (Except.ok.inj h), fun h => congrArg Except.ok (Except.ok.inj h)⟩

theorem exists_fault {input : String} (h : ∀ d, parse input ≠ .ok d) :
    ∃ fault, parse input = .error ⟨input, fault⟩ := by
  rw [parse] at h ⊢
  cases hread : ofChars (Text.trim input.toList) with
  | error fault => exact ⟨fault, rfl⟩
  | ok d => exact absurd (by rw [hread]; rfl) (h d)

/-- No step of reading fails. Exactly the texts of the grammar that come to less than `2 ^ 64` seconds are durations,
and each of them is the one it comes to. A text comes to one number only, so none that is out of range is read as
something else. What is no duration is an error with the text as it came, blanks included. -/
theorem parse_eq_ok_iff_denotes (input : String) :
    parse? input = some (parse input) ∧
    (∀ d, parse input = .ok d ↔ Denotes (Text.trim input.toList) d.nanoseconds) ∧
    (∀ m n, Denotes (Text.trim input.toList) m → Denotes (Text.trim input.toList) n → m = n) ∧
    ((∀ n < 2 ^ 64 * 10 ^ 9, ¬ Denotes (Text.trim input.toList) n) → ∃ fault, parse input = .error ⟨input, fault⟩) := by
  have hok : ∀ d, parse input = .ok d ↔ Denotes (Text.trim input.toList) d.nanoseconds := fun d =>
    parse_eq_ok_iff.trans ⟨denotes_of_ofChars, ofChars_of_denotes⟩
  refine ⟨parse?_eq input, hok, fun m n => Denotes.unique, fun h => exists_fault fun d hd => ?_⟩
  exact h d.nanoseconds d.nanoseconds_lt ((hok d).1 hd)

end ClusterMetrics.Duration
