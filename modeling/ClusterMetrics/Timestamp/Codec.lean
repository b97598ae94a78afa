import ClusterMetrics.Json.Codec
import ClusterMetrics.Text.Decimal
import ClusterMetrics.Timestamp

/-! # Timestamps as text and in JSON

The format of RFC 3339: `2024-05-05T05:05:05.25Z`. Instants are written in UTC with 0, 3, 6 or 9 places,
and a leap second as second 60. Instants up to the end of the year 1 are read as `zero`, and so is `null` in JSON. -/

namespace ClusterMetrics.Timestamp

/-! ### Writing -/

/-- Four digits or more, with a sign if there are more or the year is negative. -/
def yearChars (year : Int) : List Char :=
  if 0 ≤ year ∧ year ≤ 9999 then Text.decimalPadded 4 year.toNat
  else (if year < 0 then '-' else '+') :: Text.decimalPadded 4 year.natAbs

/-- A point and the fewest places of 3, 6 and 9 that are exact; nothing for zero. -/
def fractionChars (nanoseconds : Nat) : List Char :=
  if nanoseconds = 0 then []
  else if nanoseconds % 1000000 = 0 then '.' :: Text.decimalPadded 3 (nanoseconds / 1000000)
  else if nanoseconds % 1000 = 0 then '.' :: Text.decimalPadded 6 (nanoseconds / 1000)
  else '.' :: Text.decimalPadded 9 nanoseconds

def instantChars (i : Instant) : List Char :=
  let date := i.date
  let second := (i.seconds % 86400).toNat
  let two := Text.decimalPadded 2
  yearChars date.year ++ '-' :: two date.month ++ '-' :: two date.day ++
    'T' :: two (second / 3600) ++ ':' :: two (second / 60 % 60) ++
    ':' :: two (second % 60 + i.nanoseconds / 1000000000) ++
    fractionChars (i.nanoseconds % 1000000000) ++ ['Z']

def toChars : Timestamp → List Char
  | zero => "0001-01-01T00:00:00Z".toList
  | instant i => instantChars i

def format (t : Timestamp) : String := String.ofList t.toChars

/-! ### Reading -/

/-- The number written by the first `count` characters, all digits, and the rest. -/
def digits? (count : Nat) (cs : List Char) : Option (Nat × List Char) :=
  let ds := cs.take count
  if ds.length = count ∧ ds.all Char.isDigit then some (Nat.ofDigitChars 10 ds 0, cs.drop count) else none

/-- The rest after a first character that satisfies `p`. -/
def skip? (p : Char → Bool) : List Char → Option (List Char)
  | c :: cs => if p c then some cs else none
  | [] => none

/-- The nanoseconds of a fraction, if there is one, and the rest. Places after the ninth are dropped. -/
def fraction? (cs : List Char) : Option (Nat × List Char) :=
  match cs with
  | '.' :: cs =>
    let ds := cs.takeWhile Char.isDigit
    let kept := ds.take 9
    if ds.isEmpty then none
    else some (Nat.ofDigitChars 10 kept 0 * Nat.pow 10 (9 - kept.length), cs.dropWhile Char.isDigit)
  | cs => some (0, cs)

/-- The offset from UTC in minutes, and the rest. -/
def offset? (cs : List Char) : Option (Int × List Char) :=
  match cs with
  | [] => none
  | c :: cs =>
    if c = 'Z' ∨ c = 'z' then some (0, cs)
    else if c = '+' ∨ c = '-' ∨ c = '−' then do
      let (hours, cs) ← digits? 2 cs
      let cs ← skip? (· == ':') cs
      let (minutes, cs) ← digits? 2 cs
      if hours ≤ 23 ∧ minutes ≤ 59 then
        let size : Int := hours * 60 + minutes
        return (if c = '+' then size else -size, cs)
      else none
    else none

/-- Reads an instant, whatever its year. Second 60 is a leap second. -/
def readInstant? (cs : List Char) : Option Instant := do
  let (year, cs) ← digits? 4 cs
  let cs ← skip? (· == '-') cs
  let (month, cs) ← digits? 2 cs
  let cs ← skip? (· == '-') cs
  let (day, cs) ← digits? 2 cs
  let cs ← skip? (fun c => c == 'T' || c == 't' || c == ' ') cs
  let (hour, cs) ← digits? 2 cs
  let cs ← skip? (· == ':') cs
  let (minute, cs) ← digits? 2 cs
  let cs ← skip? (· == ':') cs
  let (second, cs) ← digits? 2 cs
  let (fraction, cs) ← fraction? cs
  let (offset, cs) ← offset? cs
  let date : Calendar.Date := ⟨year, month, day⟩
  if cs.isEmpty ∧ date.isValid ∧ hour ≤ 23 ∧ minute ≤ 59 ∧ second ≤ 60 then
    let days := date.toDays - Calendar.unixEpoch
    let minutes : Int := days * 1440 + hour * 60 + minute - offset
    some ⟨minutes * 60 + min second 59, fraction + if second = 60 then 1000000000 else 0⟩
  else none

def ofInstant (i : Instant) : Timestamp := if i.date.year ≤ 1 then zero else instant i

def parse? (s : String) : Option Timestamp := (readInstant? s.toList).map ofInstant

/-! ### JSON -/

/-- Timestamps are texts in JSON; `null` is read as `zero`. -/
def codec : Codec Timestamp where
  read _
    | .null => some .zero
    | j => j.text?.bind Timestamp.parse?
  write t := .ofText t.format

end ClusterMetrics.Timestamp
