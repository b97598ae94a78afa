import ClusterMetrics.Binary64.Text
import ClusterMetrics.Json

/-! # Numbers in JSON

A number without fraction and exponent is an integer, except `-0`. Any number is read as a double: its
leading digits, as many as fit 64 bits, are scaled by a power of ten, each step rounded. Numbers too
large for a double are refused. -/

namespace ClusterMetrics.Json

/-- The parts of a number as written. -/
structure NumberParts where
  negative : Bool
  whole : List Nat
  fraction : List Nat
  /-- The exponent, if one is written. -/
  exponent : Option Int
deriving Repr, DecidableEq

def digitValues (bytes : Bytes) : List Nat := bytes.map fun b => b.toNat - 0x30

def ofDigits (ds : List Nat) : Nat := ds.foldl (fun n d => 10 * n + d) 0

/-- The exponent written after the letter `e`. -/
def exponentOf (bytes : Bytes) : Int :=
  match bytes with
  | [] => 0
  | b :: rest =>
    if b == Byte.minus then -(ofDigits (digitValues rest) : Int)
    else if b == Byte.plus then ofDigits (digitValues rest)
    else ofDigits (digitValues bytes)

def numberParts (bytes : Bytes) : NumberParts :=
  let negative := bytes.head? == some Byte.minus
  let unsigned := if negative then bytes.tail else bytes
  let whole := unsigned.takeWhile Byte.isDigit
  let rest := unsigned.dropWhile Byte.isDigit
  let hasPoint := rest.head? == some Byte.point
  let afterPoint := if hasPoint then rest.tail else rest
  let fraction := if hasPoint then afterPoint.takeWhile Byte.isDigit else []
  let rest := if hasPoint then afterPoint.dropWhile Byte.isDigit else afterPoint
  { negative
    whole := digitValues whole
    fraction := digitValues fraction
    exponent := match rest with
      | [] => none
      | _ :: power => some (exponentOf power) }

/-- Whether the number has neither fraction nor exponent. -/
def NumberParts.isWhole (p : NumberParts) : Bool := p.fraction.isEmpty && p.exponent.isNone

/-- The integer written, `-0` excepted. -/
def NumberParts.integer? (p : NumberParts) : Option Int :=
  let n := ofDigits p.whole
  if !p.isWhole || (p.negative && n == 0) then none
  else some (if p.negative then -(n : Int) else n)

/-! ### Doubles -/

/-- Digits read so far: `significand * 10 ^ exponent`, and whether a digit did not fit any more. -/
structure Significand where
  significand : Nat
  exponent : Int
  full : Bool
deriving Repr, DecidableEq

/-- Significands are held in 64 bits. -/
def significandLimit : Nat := 0x10000000000000000

/-- A further digit before the point. Once one did not fit, each only counts for its place. -/
def Significand.pushWhole (s : Significand) (d : Nat) : Significand :=
  if !s.full && 10 * s.significand + d < significandLimit then
    { s with significand := 10 * s.significand + d }
  else { s with exponent := s.exponent + 1, full := true }

/-- A further digit after the point. Once one did not fit, all are dropped. -/
def Significand.pushFraction (s : Significand) (d : Nat) : Significand :=
  if !s.full && 10 * s.significand + d < significandLimit then
    { s with significand := 10 * s.significand + d, exponent := s.exponent - 1 }
  else { s with full := true }

def NumberParts.significand (p : NumberParts) : Significand :=
  let s := p.whole.foldl Significand.pushWhole ⟨0, 0, false⟩
  p.fraction.foldl Significand.pushFraction { s with full := false }

/-- The largest exponent of ten that has a double. -/
def largestPower : Nat := 308

/-- `x / 10 ^ n`, by powers that have a double. -/
def divideByPower (x : Binary64) (n : Nat) : Binary64 :=
  if n ≤ largestPower then x.div (.ofNat (Nat.pow 10 n))
  else if x.numEq .zero then x
  else divideByPower (x.div (.ofNat (Nat.pow 10 largestPower))) (n - largestPower)
termination_by n
decreasing_by simp only [largestPower] at *; omega

/-- `x * 10 ^ exponent`, unless that is too large. -/
def scaleByPower? (x : Binary64) (exponent : Int) : Option Binary64 :=
  if exponent < 0 then some (divideByPower x exponent.natAbs)
  else if exponent.natAbs ≤ largestPower then
    let y := x.mul (.ofNat (Nat.pow 10 exponent.natAbs))
    if y.isInfinite then none else some y
  else if x.numEq .zero then some x
  else none

/-- The double that the number is read as. -/
def NumberParts.double? (p : NumberParts) : Option Binary64 :=
  let s := p.significand
  let x := Binary64.ofNat s.significand
  let scaled :=
    if p.isWhole && s.exponent == 0 then some x
    else scaleByPower? x (s.exponent + p.exponent.getD 0)
  scaled.map fun y => if p.negative then y.neg else y

/-! ### Writing -/

def charBytes (cs : List Char) : Bytes := cs.map fun c => UInt8.ofNat c.toNat

def ofNat (n : Nat) : Json := .number (charBytes (Text.decimal n))

def ofInt (n : Int) : Json :=
  .number (charBytes (if n < 0 then '-' :: Text.decimal n.natAbs else Text.decimal n.natAbs))

/-- A double by its shortest text; what is no finite number is written `null`. -/
def ofBinary64 : Binary64 → Json
  | .finite x => .number (charBytes x.toChars)
  | _ => .null

end ClusterMetrics.Json
