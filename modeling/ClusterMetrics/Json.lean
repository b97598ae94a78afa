/-! # JSON values as written

A value keeps the text of its numbers and strings: what they stand for, and whether they stand for
anything, is asked only where a value is used. Members keep their order and may repeat. -/

namespace ClusterMetrics

abbrev Bytes := List UInt8

/-- The UTF-8 form of a text. -/
def utf8Bytes (s : String) : Bytes := s.toUTF8.data.toList

inductive Json where
  | null
  | bool (b : Bool)
  | number (text : Bytes)
  /-- The text between the quotes. -/
  | string (text : Bytes)
  | array (items : List Json)
  /-- Keys are texts between quotes. -/
  | object (members : List (Bytes × Json))

namespace Json

instance : Inhabited Json := ⟨null⟩

/-! ### The bytes of the grammar -/

namespace Byte

abbrev quote : UInt8 := 0x22
abbrev plus : UInt8 := 0x2B
abbrev comma : UInt8 := 0x2C
abbrev minus : UInt8 := 0x2D
abbrev point : UInt8 := 0x2E
abbrev zero : UInt8 := 0x30
abbrev colon : UInt8 := 0x3A
abbrev openBracket : UInt8 := 0x5B
abbrev backslash : UInt8 := 0x5C
abbrev closeBracket : UInt8 := 0x5D
abbrev openBrace : UInt8 := 0x7B
abbrev closeBrace : UInt8 := 0x7D

/-- Space, tab, line feed and carriage return may stand between tokens. -/
def isBlank (b : UInt8) : Bool := b == 0x20 || b == 0x09 || b == 0x0A || b == 0x0D

def isDigit (b : UInt8) : Bool := 0x30 ≤ b && b ≤ 0x39

def isHexDigit (b : UInt8) : Bool :=
  isDigit b || (0x61 ≤ b && b ≤ 0x66) || (0x41 ≤ b && b ≤ 0x46)

/-- The letter `e` of an exponent, in either case. -/
def isExponent (b : UInt8) : Bool := b == 0x65 || b == 0x45

end Byte

end Json

end ClusterMetrics
