import ClusterMetrics.Binary64
import ClusterMetrics.Text.Decimal

/-! # Double-precision numbers as text

Two notations: the fewest digits that determine the number, and a fixed number of places. -/

namespace ClusterMetrics.Binary64

/-! ### The fewest digits -/

/-- A decimal number `digits * 10 ^ exponent`. -/
structure DecimalValue where
  digits : Nat
  exponent : Int
deriving Repr, DecidableEq

namespace DecimalValue

/-- The value as a ratio of natural numbers. -/
def ratio (v : DecimalValue) : Nat × Nat :=
  if 0 ≤ v.exponent then (v.digits * Nat.pow 10 v.exponent.toNat, 1)
  else (v.digits, Nat.pow 10 (-v.exponent).toNat)

/-- The same value without trailing zeros among its digits. -/
def trimmed (v : DecimalValue) : DecimalValue :=
  if _ : 0 < v.digits ∧ v.digits % 10 = 0 then trimmed ⟨v.digits / 10, v.exponent + 1⟩ else v
termination_by v.digits
decreasing_by exact Nat.div_lt_self (by omega) (by omega)

end DecimalValue

end Binary64

namespace FiniteBinary64

/-- Whether `v` lies among the reals that round to the magnitude of `x`. They reach halfway to either
neighbour, which is nearer below a power of two; the ends belong to an even mantissa. -/
def isNearest (x : FiniteBinary64) (v : Binary64.DecimalValue) : Bool :=
  let (num, den) := v.ratio
  let position := 4 * num * Binary64.unitsPerOne
  let step := Nat.pow 2 x.exponent * den
  let below := if x.mantissa = 0x10000000000000 ∧ 0 < x.exponent then 1 else 2
  let low := (4 * x.mantissa - below) * step
  let high := (4 * x.mantissa + 2) * step
  if x.mantissa % 2 = 0 then low ≤ position && position ≤ high
  else low < position && position < high

/-- The exponent of ten of the first digit. -/
def leadingExponent (x : FiniteBinary64) : Int :=
  ((Text.decimal (x.units * Nat.pow 10 400 / Binary64.unitsPerOne)).length : Int) - 401

/-- The number at `num / den * 10 ^ exponent` that is nearest to the magnitude of `x` among those that
round to it; of two equally near, the one with the even last digit. -/
def nearestAt? (x : FiniteBinary64) (exponent : Int) (num den : Nat) : Option Binary64.DecimalValue :=
  let down : Binary64.DecimalValue := ⟨num / den, exponent⟩
  let up : Binary64.DecimalValue := ⟨num / den + 1, exponent⟩
  match x.isNearest down, x.isNearest up with
  | true, true => some ⟨Binary64.nearestEven num den, exponent⟩
  | true, false => some down
  | false, true => some up
  | false, false => none

/-- Such a number with `count` digits. -/
def withDigits? (x : FiniteBinary64) (count : Nat) : Option Binary64.DecimalValue :=
  let exponent := x.leadingExponent - count + 1
  if 0 ≤ exponent then x.nearestAt? exponent x.units (Binary64.unitsPerOne * Nat.pow 10 exponent.toNat)
  else x.nearestAt? exponent (x.units * Nat.pow 10 (-exponent).toNat) Binary64.unitsPerOne

/-- The decimal number with the fewest digits that rounds to the magnitude of `x`. Seventeen digits
always suffice. -/
def shortest (x : FiniteBinary64) : Binary64.DecimalValue :=
  if x.mantissa = 0 then ⟨0, 0⟩
  else (((List.range 17).findSome? fun i => x.withDigits? (i + 1)).getD ⟨0, 0⟩).trimmed

/-- The shortest text: positional from `1e-5` up to `1e16` with at least one place, otherwise one digit
before the point and an exponent with its sign. -/
def toChars (x : FiniteBinary64) : List Char :=
  let v := x.shortest
  let ds := Text.decimal v.digits
  let point := (ds.length : Int) + v.exponent
  let body :=
    if v.digits = 0 then ['0', '.', '0']
    else if 0 ≤ v.exponent ∧ point ≤ 16 then
      ds ++ List.replicate v.exponent.toNat '0' ++ ['.', '0']
    else if 0 < point ∧ point ≤ 16 then
      ds.take point.toNat ++ '.' :: ds.drop point.toNat
    else if -5 < point ∧ point ≤ 0 then
      ['0', '.'] ++ List.replicate (-point).toNat '0' ++ ds
    else
      let exponent := point - 1
      ds.take 1 ++ (if ds.length = 1 then [] else '.' :: ds.drop 1) ++
        ['e', if 0 ≤ exponent then '+' else '-'] ++ Text.decimal exponent.natAbs
  if x.negative then '-' :: body else body

end FiniteBinary64

namespace Binary64

/-! ### Fixed places -/

/-- The number with `places` places after the point, at least one; halfway, the last digit is even. -/
def toFixed (places : Nat) : Binary64 → String
  | finite x =>
    let scaled := nearestEven (x.units * Nat.pow 10 places) unitsPerOne
    let body := Text.decimal (scaled / Nat.pow 10 places) ++ '.' ::
      Text.decimalPadded places (scaled % Nat.pow 10 places)
    String.ofList (if x.negative then '-' :: body else body)
  | infinite false => "inf"
  | infinite true => "-inf"
  | nan => "NaN"

end Binary64

end ClusterMetrics
