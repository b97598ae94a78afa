/-! # Bytes that should be UTF-8

Bytes are read as a sequence of pieces, each a scalar value or a malformed run. A malformed run is as
long as the bytes could still have begun a scalar value, and at least one byte. Malformed runs are
replaced by U+FFFD where any text is welcome, and reported where none is. -/

namespace ClusterMetrics.Utf8

inductive Piece where
  | scalar (c : Char)
  /-- `extra + 1` bytes that are no scalar value; `cut` if the input ends where one could go on. -/
  | malformed (extra : Nat) (cut : Bool)
deriving Repr, DecidableEq

namespace Piece

def width : Piece → Nat
  | scalar c => c.utf8Size
  | malformed extra _ => extra + 1

theorem width_pos (p : Piece) : 0 < p.width := by
  cases p with
  | scalar c => exact Char.utf8Size_pos c
  | malformed => exact Nat.succ_pos _

end Piece

/-- The values the second byte of a scalar value may take after `lead`, and how many bytes follow
that one; nothing if no scalar value of several bytes begins with `lead`. -/
def continuation (lead : UInt8) : Option ((UInt8 → Bool) × Nat) :=
  let within (lo hi : UInt8) (b : UInt8) : Bool := lo ≤ b && b ≤ hi
  if 0xC2 ≤ lead && lead ≤ 0xDF then some (within 0x80 0xBF, 0)
  else if lead == 0xE0 then some (within 0xA0 0xBF, 1)
  else if lead == 0xED then some (within 0x80 0x9F, 1)
  else if 0xE1 ≤ lead && lead ≤ 0xEF then some (within 0x80 0xBF, 1)
  else if lead == 0xF0 then some (within 0x90 0xBF, 2)
  else if 0xF1 ≤ lead && lead ≤ 0xF3 then some (within 0x80 0xBF, 2)
  else if lead == 0xF4 then some (within 0x80 0x8F, 2)
  else none

/-- How many of the first `n` bytes from `i` on continue a scalar value, and whether the input ended
before one did not. -/
def continued (b : ByteArray) : Nat → Nat → Nat × Bool
  | _, 0 => (0, false)
  | i, n + 1 =>
    match b[i]? with
    | none => (0, true)
    | some c =>
      if 0x80 ≤ c && c ≤ 0xBF then
        let (k, cut) := continued b (i + 1) n
        (k + 1, cut)
      else (0, false)

/-- The malformed run at `i`, where no scalar value is. -/
def malformedAt (b : ByteArray) (i : Nat) : Piece :=
  match b[i]?.bind continuation with
  | none => .malformed 0 false
  | some (second, more) =>
    match b[i + 1]? with
    | none => .malformed 0 true
    | some c =>
      if second c then
        let (k, cut) := continued b (i + 2) more
        .malformed (k + 1) cut
      else .malformed 0 false

def pieceAt (b : ByteArray) (i : Nat) : Piece :=
  match b.utf8DecodeChar? i with
  | some c => .scalar c
  | none => malformedAt b i

/-- The text from byte `i` on, appended to `acc`. -/
def lossyFrom (b : ByteArray) (i : Nat) (acc : String) : String :=
  if _ : i < b.size then
    let p := pieceAt b i
    lossyFrom b (i + p.width) <| acc.push <| match p with
      | .scalar c => c
      | .malformed .. => '\uFFFD'
  else acc
termination_by b.size - i
decreasing_by have := (pieceAt b i).width_pos; omega

/-- The text of `b`, with U+FFFD for every malformed run. -/
def lossy (b : ByteArray) : String := lossyFrom b 0 ""

/-- The first malformed run at or after byte `i`: where it begins and what it is. -/
def firstMalformedFrom (b : ByteArray) (i : Nat) : Option (Nat × Piece) :=
  if _ : i < b.size then
    match pieceAt b i with
    | .scalar c => firstMalformedFrom b (i + c.utf8Size)
    | .malformed extra cut => some (i, .malformed extra cut)
  else none
termination_by b.size - i
decreasing_by have := Char.utf8Size_pos c; omega

/-- Why bytes are not UTF-8: where the first malformed run begins, and how long it is unless the
input ends within it. -/
structure Fault where
  validUpTo : Nat
  length : Option Nat
deriving Repr, DecidableEq

def Fault.message (f : Fault) : String :=
  match f.length with
  | some n => s!"invalid utf-8 sequence of {n} bytes from index {f.validUpTo}"
  | none => s!"incomplete utf-8 byte sequence from index {f.validUpTo}"

def decode (b : ByteArray) : Except Fault String :=
  match String.fromUTF8? b with
  | some s => .ok s
  | none =>
    match firstMalformedFrom b 0 with
    | some (i, .malformed extra false) => .error ⟨i, some (extra + 1)⟩
    | some (i, _) => .error ⟨i, none⟩
    | none => .error ⟨b.size, none⟩

end ClusterMetrics.Utf8
