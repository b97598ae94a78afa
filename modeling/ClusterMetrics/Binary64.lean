/-! # Double-precision numbers

The numbers of the format binary64, with the operations that measurements are put through. Every finite
one is a whole number of units of `2 ^ -1074`, so each operation is computed exactly over those units
and rounded once, to the nearest number and, halfway, to the even one. -/

namespace ClusterMetrics

/-- `± mantissa * 2 ^ exponent` units of `2 ^ -1074`, in its one normal form. -/
structure FiniteBinary64 where
  negative : Bool
  mantissa : Nat
  exponent : Nat
  mantissa_lt : mantissa < 0x20000000000000
  normal : exponent = 0 ∨ 0x10000000000000 ≤ mantissa
  exponent_le : exponent ≤ 2045
deriving DecidableEq, Repr

namespace FiniteBinary64

/-- The magnitude in units of `2 ^ -1074`. -/
def units (x : FiniteBinary64) : Nat := x.mantissa * Nat.pow 2 x.exponent

def signedUnits (x : FiniteBinary64) : Int := if x.negative then -(x.units : Int) else x.units

def neg (x : FiniteBinary64) : FiniteBinary64 := { x with negative := !x.negative }

def zero (negative : Bool) : FiniteBinary64 := ⟨negative, 0, 0, by decide, .inl rfl, by decide⟩

end FiniteBinary64

inductive Binary64 where
  | finite (x : FiniteBinary64)
  | infinite (negative : Bool)
  | nan
deriving DecidableEq, Repr

namespace Binary64

/-- The units of `2 ^ -1074` in one. -/
def unitsPerOne : Nat := Nat.pow 2 1074

def zero : Binary64 := finite (.zero false)

instance : Inhabited Binary64 := ⟨zero⟩

def isNegative : Binary64 → Bool
  | finite x => x.negative
  | infinite negative => negative
  | nan => false

def isInfinite : Binary64 → Bool
  | infinite _ => true
  | _ => false

/-! ### Rounding -/

/-- The natural number nearest to `num / den`; of two equally near, the even one. -/
def nearestEven (num den : Nat) : Nat :=
  let q := num / den
  let twice := 2 * (num % den)
  if twice < den then q
  else if twice = den then q + q % 2
  else q + 1

/-- `± mantissa * 2 ^ exponent` units, infinite if the exponent is out of range. -/
def ofParts (negative : Bool) (mantissa exponent : Nat) : Binary64 :=
  if h : mantissa < 0x20000000000000 ∧ (exponent = 0 ∨ 0x10000000000000 ≤ mantissa) ∧ exponent ≤ 2045 then
    finite ⟨negative, mantissa, exponent, h.1, h.2.1, h.2.2⟩
  else infinite negative

/-- The number nearest to `± num / den` units. -/
def ofUnits (negative : Bool) (num den : Nat) : Binary64 :=
  let exponent := (num / den).log2 + 1 - 53
  let mantissa := nearestEven num (den * Nat.pow 2 exponent)
  if mantissa = 0x20000000000000 then ofParts negative 0x10000000000000 (exponent + 1)
  else ofParts negative mantissa exponent

/-- The number nearest to `num / den`. -/
def ofRatio (num den : Nat) : Binary64 := ofUnits false (num * unitsPerOne) den

def ofNat (n : Nat) : Binary64 := ofRatio n 1

/-! ### Arithmetic -/

def neg : Binary64 → Binary64
  | finite x => finite x.neg
  | infinite negative => infinite (!negative)
  | nan => nan

def add : Binary64 → Binary64 → Binary64
  | finite x, finite y =>
    let sum := x.signedUnits + y.signedUnits
    if sum = 0 then finite (.zero (x.negative && y.negative))
    else ofUnits (decide (sum < 0)) sum.natAbs 1
  | nan, _ | _, nan => nan
  | infinite s, infinite t => if s = t then infinite s else nan
  | infinite s, finite _ | finite _, infinite s => infinite s

def sub (x y : Binary64) : Binary64 := x.add y.neg

def mul : Binary64 → Binary64 → Binary64
  | finite x, finite y => ofUnits (x.negative != y.negative) (x.units * y.units) unitsPerOne
  | nan, _ | _, nan => nan
  | infinite s, infinite t => infinite (s != t)
  | infinite s, finite x | finite x, infinite s => if x.units = 0 then nan else infinite (s != x.negative)

def div : Binary64 → Binary64 → Binary64
  | finite x, finite y =>
    let negative := x.negative != y.negative
    if y.units = 0 then if x.units = 0 then nan else infinite negative
    else ofUnits negative (x.units * unitsPerOne) y.units
  | nan, _ | _, nan => nan
  | infinite _, infinite _ => nan
  | infinite s, finite x => infinite (s != x.negative)
  | finite x, infinite s => finite (.zero (x.negative != s))

/-- The largest `r` with `r * r ≤ n`. -/
def natSqrt (n : Nat) : Nat :=
  if h : n < 2 then n
  else
    let r := 2 * natSqrt (n / 4)
    if (r + 1) * (r + 1) ≤ n then r + 1 else r
termination_by n
decreasing_by omega

/-- The square root. One that is no whole number of units has so many units that any number between
its two neighbours rounds as it does; the middle stands for it. -/
def sqrt : Binary64 → Binary64
  | finite x =>
    if x.units = 0 then finite x
    else if x.negative then nan
    else
      let square := x.units * unitsPerOne
      let r := natSqrt square
      if r * r = square then ofUnits false r 1 else ofUnits false (2 * r + 1) 2
  | infinite false => infinite false
  | _ => nan

def lt : Binary64 → Binary64 → Bool
  | finite x, finite y => x.signedUnits < y.signedUnits
  | nan, _ | _, nan => false
  | infinite s, infinite t => s && !t
  | infinite s, finite _ => s
  | finite _, infinite t => !t

/-- Equality of numbers: the two zeros are equal, and `nan` equals nothing. -/
def numEq : Binary64 → Binary64 → Bool
  | finite x, finite y => x.signedUnits == y.signedUnits
  | infinite s, infinite t => s == t
  | _, _ => false

/-- The whole part as 64 bits: zero for what is not positive, the largest for what is too large. -/
def toUInt64 : Binary64 → UInt64
  | finite x => if x.negative then 0 else UInt64.ofNat (min (x.units / unitsPerOne) 0xFFFFFFFFFFFFFFFF)
  | infinite false => UInt64.ofNat 0xFFFFFFFFFFFFFFFF
  | _ => 0

end Binary64

end ClusterMetrics
