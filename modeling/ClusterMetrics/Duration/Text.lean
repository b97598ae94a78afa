import ClusterMetrics.Duration
import ClusterMetrics.Text.Blank
import ClusterMetrics.Text.Decimal

/-! # Durations as text

A duration is written as components, each a number and its unit: `1h2m3.5s`. Below a second there is
one component, in the largest unit of which there is at least one. A text is read as components in
any order and number, with fractions anywhere; what a fraction says below a nanosecond is dropped. -/

namespace ClusterMetrics.Duration

/-! ### Writing -/

/-- `value / 10 ^ places`, with as few places as are exact. -/
def fixedPoint (places value : Nat) : List Char :=
  let whole := value / Nat.pow 10 places
  let fraction := value % Nat.pow 10 places
  if fraction = 0 then Text.decimal whole
  else Text.decimal whole ++ '.' ::
    Text.dropEndWhile (· == '0') (Text.decimalPadded places fraction)

def toChars (d : Duration) : List Char :=
  let n := d.nanoseconds
  if n = 0 then ['0', 's']
  else if n < 1000 then Text.decimal n ++ ['n', 's']
  else if n < 1000000 then fixedPoint 3 n ++ ['µ', 's']
  else if n < 1000000000 then fixedPoint 6 n ++ ['m', 's']
  else
    let hours := d.seconds / 3600
    let minutes := d.seconds % 3600 / 60
    (if 0 < hours then Text.decimal hours ++ ['h'] else []) ++
      (if 0 < hours ∨ 0 < minutes then Text.decimal minutes ++ ['m'] else []) ++
      fixedPoint 9 (d.seconds % 60 * 1000000000 + d.subsecond) ++ ['s']

def format (d : Duration) : String := String.ofList d.toChars

/-! ### Reading -/

/-- What is wrong with a text that is no duration. -/
inductive Fault where
  | empty
  | missingUnit
  | expectedNumber
  | unknownUnit (unit : String)
  | invalidNumber
  | overflow
  /-- A count of nanoseconds without a unit that does not fit 64 bits. -/
  | countTooLarge
deriving Repr, DecidableEq

def Fault.message : Fault → String
  | empty => "empty duration"
  | missingUnit => "missing unit"
  | expectedNumber => "expected a number"
  | unknownUnit unit => s!"unknown unit '{unit}'"
  | invalidNumber => "invalid number"
  | overflow => "duration overflow"
  | countTooLarge => "number too large to fit in target type"

/-- A text that is no duration, and why. -/
structure ParseError where
  input : String
  fault : Fault
deriving Repr, DecidableEq

def ParseError.message (e : ParseError) : String :=
  s!"Failed to parse duration '{e.input}': {e.fault.message}"

def isNumberChar (c : Char) : Bool := c.isDigit || c == '.'

/-- A number as written and what follows it up to the next number. -/
structure Component where
  number : List Char
  unit : List Char
deriving Repr, DecidableEq

/-- The components of a text. Only the first can lack its number, only the last its unit. -/
def components (cs : List Char) : List Component :=
  cs.foldr (fun c rest =>
    if isNumberChar c then
      match rest with
      | [] => [⟨[c], []⟩]
      | k :: ks => ⟨c :: k.number, k.unit⟩ :: ks
    else
      match rest with
      | ⟨[], unit⟩ :: ks => ⟨[], c :: unit⟩ :: ks
      | ks => ⟨[], [c]⟩ :: ks) []

/-- The nanoseconds in one `unit`. -/
def unitScale? (unit : List Char) : Option Nat :=
  match unit with
  | ['h'] => some 3600000000000
  | ['m'] => some 60000000000
  | ['s'] => some 1000000000
  | ['m', 's'] => some 1000000
  | ['u', 's'] | ['µ', 's'] | ['μ', 's'] => some 1000
  | ['n', 's'] => some 1
  | _ => none

/-- The nanoseconds of a fraction: each digit counts for its place, rounded down. -/
def fractionValue (place : Nat) : List Char → Nat
  | [] => 0
  | d :: ds => (d.toNat - '0'.toNat) * (place / 10) + fractionValue (place / 10) ds

/-- Numbers and their sums are held in 128 bits. -/
def magnitudeLimit : Nat := 0x100000000000000000000000000000000

/-- The nanoseconds of `number` units of `scale` nanoseconds. -/
def scaled? (number : List Char) (scale : Nat) : Option Nat :=
  let (whole, fraction) := (Text.cutAt (· == '.') number).getD (number, [])
  if (whole.isEmpty && fraction.isEmpty) || fraction.contains '.' then none
  else if Nat.ofDigitChars 10 whole 0 < magnitudeLimit then
    let value := Nat.ofDigitChars 10 whole 0 * scale + fractionValue scale fraction
    if value < magnitudeLimit then some value else none
  else none

def addComponent (total : Nat) (k : Component) : Except Fault Nat :=
  if k.unit.isEmpty then .error .missingUnit
  else if k.number.isEmpty then .error .expectedNumber
  else match unitScale? k.unit with
    | none => .error (.unknownUnit (String.ofList k.unit))
    | some scale =>
      match scaled? k.number scale with
      | none => .error .invalidNumber
      | some value => if total + value < magnitudeLimit then .ok (total + value) else .error .overflow

/-- Reads a text without blanks at its ends. -/
def ofChars (cs : List Char) : Except Fault Duration :=
  if cs.isEmpty then .error .empty
  else if cs = ['0'] then .ok zero
  else do
    let total ← (components cs).foldlM addComponent 0
    match ofNanoseconds? total with
    | some d => .ok d
    | none => .error .overflow

/-- Reads a duration such as `1s`, `1m30s`, `1.5h` or `250ms`; a bare `0` needs no unit. -/
def parse (input : String) : Except ParseError Duration :=
  (ofChars (Text.trim input.toList)).mapError (⟨input, ·⟩)

/-- Reads a bare number as nanoseconds, anything else as `parse` does. -/
def parseSample (input : String) : Except ParseError Duration :=
  match Text.readDecimal? input.toList with
  | some n => if n < 0x10000000000000000 then .ok (ofNanoseconds (UInt64.ofNat n)) else .error ⟨input, .countTooLarge⟩
  | none => parse input

end ClusterMetrics.Duration
