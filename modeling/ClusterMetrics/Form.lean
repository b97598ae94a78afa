import ClusterMetrics.Text.Blank
import ClusterMetrics.Text.Utf8

/-! # Form-encoded pairs

Pairs of texts in one line, `key=value` joined by `&`. A space is written `+`, and a byte other than an
ASCII letter, a digit or one of `*-._` as `%` and two hexadecimal digits. Reading takes any text. -/

namespace ClusterMetrics.Form

/-! ### Writing -/

def isPlain (b : UInt8) : Bool :=
  let c := Char.ofNat b.toNat
  c.isAlphanum || c == '*' || c == '-' || c == '.' || c == '_'

def hexDigit (n : Nat) : Char := (Nat.digitChar n).toUpper

def encodeByte (b : UInt8) : List Char :=
  if b == 0x20 then ['+']
  else if isPlain b then [Char.ofNat b.toNat]
  else ['%', hexDigit (b.toNat / 16), hexDigit (b.toNat % 16)]

def encodeText (s : String) : List Char := s.toUTF8.data.toList.flatMap encodeByte

def encode (pairs : List (String × String)) : String :=
  String.ofList <| ['&'].intercalate <|
    pairs.map fun (key, value) => encodeText key ++ '=' :: encodeText value

/-! ### Reading -/

def hexValue? (c : Char) : Option Nat :=
  if c.isDigit then some (c.toNat - '0'.toNat)
  else if 'a' ≤ c ∧ c ≤ 'f' then some (c.toNat - 'a'.toNat + 10)
  else if 'A' ≤ c ∧ c ≤ 'F' then some (c.toNat - 'A'.toNat + 10)
  else none

/-- The bytes a text stands for, appended to `acc`. A `%` without two hexadecimal digits after it
stands for itself. -/
def decodeBytes (acc : ByteArray) : List Char → ByteArray
  | [] => acc
  | '%' :: h :: l :: cs =>
    match hexValue? h, hexValue? l with
    | some hi, some lo => decodeBytes (acc.push (UInt8.ofNat (16 * hi + lo))) cs
    | _, _ => decodeBytes (acc.push 0x25) (h :: l :: cs)
  | '+' :: cs => decodeBytes (acc.push 0x20) cs
  | c :: cs => decodeBytes (acc ++ c.toString.toUTF8) cs

def decodeText (cs : List Char) : String := Utf8.lossy (decodeBytes .empty cs)

/-- The pairs of a line; empty parts are skipped, and a part without `=` has an empty value. -/
def decode (line : List Char) : List (String × String) :=
  ((Text.splitOn '&' line).filter (!·.isEmpty)).map fun part =>
    let (key, value) := (Text.cutAt (· == '=') part).getD (part, [])
    (decodeText key, decodeText value)

end ClusterMetrics.Form
