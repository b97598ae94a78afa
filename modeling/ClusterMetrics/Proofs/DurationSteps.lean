import ClusterMetrics.Proofs.DurationTexts

/-! # Durations are read without failure

The digits of a fraction are added one by one until their place is below a nanosecond, and most steps check that their
number fits 128 bits. A few have no check: the difference of the bytes of a digit and of `0`, the product of a digit and
its place, and the carry from nanoseconds to seconds. Here each of them may fail; no text makes them (`parse?_eq`). -/

namespace ClusterMetrics.Duration
variable {c : Char} {number : List Char} {value place scale : Nat}

/-! ### Steps that could fail

A step that fails has no outcome at all. A number that is refused has one: no value. -/

/-- The difference of two bytes. -/
def digit? (c : Char) : Option Nat := if '0'.toNat ≤ c.toNat then some (c.toNat - '0'.toNat) else none

/-- A product in 128 bits. -/
def product? (m n : Nat) : Option Nat := if m * n < magnitudeLimit then some (m * n) else none

/-- Seconds and 32 bits of nanoseconds, which are carried over if they make a second. -/
def ofParts? (seconds nanoseconds : Nat) : Option Duration :=
  ofNanoseconds? (seconds * 1000000000 + nanoseconds % 2 ^ 32)

/-- The digits behind the point added to `value`. -/
def addFraction? (value place : Nat) : List Char → Option (Option Nat)
  | [] => some (some value)
  | d :: ds =>
    if place / 10 = 0 then some (some value)
    else do
      let product ← product? (← digit? d) (place / 10)
      if value + product < magnitudeLimit then addFraction? (value + product) (place / 10) ds else return none

def scaledByDigits? (number : List Char) (scale : Nat) : Option (Option Nat) :=
  let (whole, fraction) := (Text.cutAt (· == '.') number).getD (number, [])
  if (whole.isEmpty && fraction.isEmpty) || fraction.contains '.' then some none
  else if Nat.ofDigitChars 10 whole 0 < magnitudeLimit then
    if Nat.ofDigitChars 10 whole 0 * scale < magnitudeLimit then
      addFraction? (Nat.ofDigitChars 10 whole 0 * scale) scale fraction
    else some none
  else some none

def addComponent? (total : Nat) (k : Component) : ExceptT Fault Option Nat :=
  if k.unit.isEmpty then throw .missingUnit
  else if k.number.isEmpty then throw .expectedNumber
  else match unitScale? k.unit with
    | none => throw (.unknownUnit (String.ofList k.unit))
    | some scale => do
      match ← scaledByDigits? k.number scale with
      | none => throw .invalidNumber
      | some value => if total + value < magnitudeLimit then return total + value else throw .overflow

def ofChars? (cs : List Char) : ExceptT Fault Option Duration :=
  if cs.isEmpty then throw .empty
  else if cs = ['0'] then return zero
  else do
    let total ← (components cs).foldlM addComponent? 0
    if total / 1000000000 < 2 ^ 64 then ofParts? (total / 1000000000) (total % 1000000000) else throw .overflow

/-- What is read, if no step fails. -/
def parse? (input : String) : Option (Except ParseError Duration) :=
  (ofChars? (Text.trim input.toList)).run.map (·.mapError (⟨input, ·⟩))

/-! ### None of them fails -/

theorem digit?_eq (h : c.isDigit = true) : digit? c = some (c.toNat - '0'.toNat) := if_pos (Text.toNat_of_isDigit h).1

theorem fractionValue_zero (ds : List Char) : fractionValue 0 ds = 0 := by
  induction ds with
  | nil => rfl
  | cons d ds ih => rw [fractionValue, Nat.zero_div, ih]; rfl

/-- The longest unit, the hour, leaves room for the product of a digit. -/
theorem addFraction?_eq {ds : List Char} (hds : ∀ d ∈ ds, d.isDigit = true) (hplace : place ≤ 3600000000000)
    (hvalue : value < magnitudeLimit) :
    addFraction? value place ds = some (if value + fractionValue place ds < magnitudeLimit
      then some (value + fractionValue place ds) else none) := by
  induction ds generalizing value place with
  | nil => rw [addFraction?, fractionValue, Nat.add_zero, if_pos hvalue]
  | cons d ds ih =>
    obtain ⟨hd, hrest⟩ := List.forall_mem_cons.1 hds
    have hdigit : d.toNat - '0'.toNat ≤ 9 := Nat.sub_le_of_le_add (Text.toNat_of_isDigit hd).2
    have hproduct : product? (d.toNat - '0'.toNat) (place / 10) = some ((d.toNat - '0'.toNat) * (place / 10)) := by
      have hlimit : 9 * 3600000000000 < magnitudeLimit := by decide
      exact if_pos (Nat.lt_of_le_of_lt (Nat.mul_le_mul hdigit (by omega)) hlimit)
    rw [addFraction?, fractionValue]
    split
    case isTrue hzero =>
      -- No place from here on is worth a nanosecond.
      rw [hzero, Nat.mul_zero, fractionValue_zero, Nat.add_zero, if_pos hvalue]
    case isFalse =>
      simp only [digit?_eq hd, hproduct, Option.bind_eq_bind, Option.bind_some, ← Nat.add_assoc]
      split
      case isTrue hfits => exact ih hrest (by omega) hfits
      case isFalse hlarge =>
        rw [if_neg (by omega)]
        rfl

theorem scaledByDigits?_eq (hnumber : ∀ c ∈ number, isNumberChar c = true) (hscale : scale ≤ 3600000000000) :
    scaledByDigits? number scale = some (scaled? number scale) := by
  rcases hcut : (Text.cutAt (· == '.') number).getD (number, []) with ⟨whole, fraction⟩
  rw [scaledByDigits?, scaled?, hcut]
  dsimp only
  split
  case isTrue => rfl
  case isFalse hshape =>
  have hpoint : '.' ∉ fraction := by simp_all
  have hfraction : ∀ c ∈ fraction, c.isDigit = true := fun c hc =>
    isDigit_of_mem_cut hnumber hcut hpoint c (List.mem_append_right _ hc)
  split
  case isFalse => rfl
  case isTrue =>
  split
  case isTrue hproduct => exact addFraction?_eq hfraction hscale hproduct
  case isFalse hproduct => rw [if_neg (by omega)]

theorem unitScale?_le {unit : List Char} (h : unitScale? unit = some scale) : scale ≤ 3600000000000 := by
  have hunits : ∀ u ∈ units, u.2 ≤ 3600000000000 := by decide
  exact hunits _ (unitScale?_eq_some_iff.1 h)

theorem addComponent?_eq {k : Component} (hk : ∀ c ∈ k.number, isNumberChar c = true) (total : Nat) :
    addComponent? total k = ExceptT.mk (some (addComponent total k)) := by
  unfold addComponent? addComponent
  split
  · rfl
  split
  · rfl
  cases hunit : unitScale? k.unit with
  | none => rfl
  | some scale =>
    dsimp only
    rw [scaledByDigits?_eq hk (unitScale?_le hunit)]
    cases scaled? k.number scale with
    | none => rfl
    | some value =>
      show (if total + value < magnitudeLimit then pure (total + value) else throw .overflow :
          ExceptT Fault Option Nat) =
        ExceptT.mk (some (if total + value < magnitudeLimit then .ok (total + value) else .error .overflow))
      split
      · rfl
      · rfl

theorem foldlM_addComponent?_eq {ks : List Component} (hks : ∀ k ∈ ks, ∀ c ∈ k.number, isNumberChar c = true)
    (total : Nat) : ks.foldlM addComponent? total = ExceptT.mk (some (ks.foldlM addComponent total)) := by
  induction ks generalizing total with
  | nil => rfl
  | cons k ks ih =>
    obtain ⟨hk, hrest⟩ := List.forall_mem_cons.1 hks
    rw [List.foldlM_cons, List.foldlM_cons, addComponent?_eq hk]
    cases addComponent total k with
    | error fault => rfl
    | ok next => exact ih hrest next

/-- Nanoseconds below a second are not carried over. -/
theorem ofParts?_eq {n : Nat} : ofParts? (n / 1000000000) (n % 1000000000) = ofNanoseconds? n := by
  rw [ofParts?, Nat.mod_eq_of_lt (by omega), Nat.div_add_mod']

theorem ofChars?_eq (cs : List Char) : ofChars? cs = ExceptT.mk (some (ofChars cs)) := by
  unfold ofChars? ofChars
  split
  · rfl
  split
  · rfl
  rw [foldlM_addComponent?_eq isNumberChar_of_mem_components]
  cases (components cs).foldlM addComponent 0 with
  | error fault => rfl
  | ok total =>
    show (if total / 1000000000 < 2 ^ 64 then ofParts? (total / 1000000000) (total % 1000000000) else throw .overflow :
      ExceptT Fault Option Duration) = _
    dsimp only [bind, Except.bind]
    rw [ofParts?_eq, ofNanoseconds?]
    by_cases hfits : total / 1000000000 < 2 ^ 64
    · have hlt : total < 0x10000000000000000 * 1000000000 := by omega
      rw [if_pos hfits, dif_pos hlt]
      rfl
    · have hlarge : ¬ total < 0x10000000000000000 * 1000000000 := by omega
      rw [if_neg hfits, dif_neg hlarge]
      rfl

/-- No step fails, whatever is read. -/
theorem parse?_eq (input : String) : parse? input = some (parse input) := by
  rw [parse?, ofChars?_eq]
  rfl

end ClusterMetrics.Duration
