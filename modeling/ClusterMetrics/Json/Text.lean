import ClusterMetrics.Json

/-! # Strings in JSON

A string stands for a text unless its bytes are not UTF-8 or it escapes half of a surrogate pair. A text
is written with as few escapes as the grammar allows. -/

namespace ClusterMetrics.Json

/-! ### Reading -/

/-- A part of a string: a byte that stands for itself or is named by an escape, or a code unit escaped by
its number. -/
inductive TextUnit where
  | byte (b : UInt8)
  | code (n : Nat)
deriving Repr, DecidableEq

def hexValue? (b : UInt8) : Option Nat :=
  if Byte.isDigit b then some (b.toNat - 0x30)
  else if 0x61 ≤ b && b ≤ 0x66 then some (b.toNat - 0x57)
  else if 0x41 ≤ b && b ≤ 0x46 then some (b.toNat - 0x37)
  else none

def hexCode? (a b c d : UInt8) : Option Nat := do
  return ((16 * (← hexValue? a) + (← hexValue? b)) * 16 + (← hexValue? c)) * 16 + (← hexValue? d)

/-- The byte that a backslash and `b` stand for. -/
def namedEscape? (b : UInt8) : Option UInt8 :=
  if b == 0x22 || b == 0x5C || b == 0x2F then some b
  else if b == 0x62 then some 0x08
  else if b == 0x66 then some 0x0C
  else if b == 0x6E then some 0x0A
  else if b == 0x72 then some 0x0D
  else if b == 0x74 then some 0x09
  else none

/-- The units of a string, added to `acc` latest first. -/
def textUnits? (acc : List TextUnit) : Bytes → Option (List TextUnit)
  | [] => some acc.reverse
  | b :: rest =>
    if b == Byte.backslash then
      match rest with
      | [] => none
      | e :: rest =>
        if e == 0x75 then
          match rest with
          | h₁ :: h₂ :: h₃ :: h₄ :: rest => do textUnits? (.code (← hexCode? h₁ h₂ h₃ h₄) :: acc) rest
          | _ => none
        else do textUnits? (.byte (← namedEscape? e) :: acc) rest
    else textUnits? (.byte b :: acc) rest

/-- The UTF-8 form of the units, added to `acc`; two units that are a surrogate pair are one character. -/
def assemble? (acc : ByteArray) : List TextUnit → Option ByteArray
  | [] => some acc
  | .byte b :: rest => assemble? (acc.push b) rest
  | .code n :: rest =>
    if 0xD800 ≤ n ∧ n < 0xDC00 then
      match rest with
      | .code m :: rest =>
        if 0xDC00 ≤ m ∧ m < 0xE000 then
          let c := Char.ofNat (0x10000 + (n - 0xD800) * 0x400 + (m - 0xDC00))
          assemble? (acc ++ c.toString.toUTF8) rest
        else none
      | _ => none
    else if 0xDC00 ≤ n ∧ n < 0xE000 then none
    else assemble? (acc ++ (Char.ofNat n).toString.toUTF8) rest

/-- The text that a string stands for. -/
def decodeText? (bytes : Bytes) : Option String := do
  String.fromUTF8? (← assemble? .empty (← textUnits? [] bytes))

/-! ### Writing -/

def hexDigit (n : Nat) : UInt8 := UInt8.ofNat (if n < 10 then 0x30 + n else 0x57 + n)

def escapeByte (b : UInt8) : Bytes :=
  if b == 0x22 || b == 0x5C then [Byte.backslash, b]
  else if b == 0x08 then [Byte.backslash, 0x62]
  else if b == 0x0C then [Byte.backslash, 0x66]
  else if b == 0x0A then [Byte.backslash, 0x6E]
  else if b == 0x0D then [Byte.backslash, 0x72]
  else if b == 0x09 then [Byte.backslash, 0x74]
  else if b < 0x20 then
    [Byte.backslash, 0x75, 0x30, 0x30, hexDigit (b.toNat / 16), hexDigit (b.toNat % 16)]
  else [b]

def encodeText (s : String) : Bytes := (utf8Bytes s).flatMap escapeByte

def ofText (s : String) : Json := .string (encodeText s)

end ClusterMetrics.Json
