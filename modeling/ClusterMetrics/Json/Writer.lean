import ClusterMetrics.Json

/-! # Writing JSON

Two layouts: without any blanks, and with every item and member on a line of its own. -/

namespace ClusterMetrics.Json

/-- The bytes between quotes. -/
def quoted (text : Bytes) : Bytes := Byte.quote :: text ++ [Byte.quote]

def wordBytes : Json → Bytes
  | null => [0x6E, 0x75, 0x6C, 0x6C]
  | bool true => [0x74, 0x72, 0x75, 0x65]
  | bool false => [0x66, 0x61, 0x6C, 0x73, 0x65]
  | _ => []

/-! ### Compact -/

mutual

def compact : Json → Bytes
  | number text => text
  | string text => quoted text
  | array items => Byte.openBracket :: compactItems items ++ [Byte.closeBracket]
  | object members => Byte.openBrace :: compactMembers members ++ [Byte.closeBrace]
  | null => wordBytes null
  | bool b => wordBytes (bool b)

/-- Items with commas between them. -/
def compactItems : List Json → Bytes
  | [] => []
  | [item] => item.compact
  | item :: items => item.compact ++ Byte.comma :: compactItems items

/-- Members with commas between them. -/
def compactMembers : List (Bytes × Json) → Bytes
  | [] => []
  | [(key, value)] => quoted key ++ Byte.colon :: value.compact
  | (key, value) :: members =>
    quoted key ++ Byte.colon :: value.compact ++ Byte.comma :: compactMembers members

end

/-! ### Pretty -/

/-- A new line, indented by two spaces for each container that is open. -/
def newline (depth : Nat) : Bytes := 0x0A :: List.replicate (2 * depth) 0x20

mutual

def prettyAt (depth : Nat) : Json → Bytes
  | number text => text
  | string text => quoted text
  | array [] => [Byte.openBracket, Byte.closeBracket]
  | array (item :: items) =>
    Byte.openBracket :: newline (depth + 1) ++ prettyAt (depth + 1) item ++
      prettyItems (depth + 1) items ++ newline depth ++ [Byte.closeBracket]
  | object [] => [Byte.openBrace, Byte.closeBrace]
  | object ((key, value) :: members) =>
    Byte.openBrace :: newline (depth + 1) ++ quoted key ++ [Byte.colon, 0x20] ++
      prettyAt (depth + 1) value ++ prettyMembers (depth + 1) members ++ newline depth ++ [Byte.closeBrace]
  | null => wordBytes null
  | bool b => wordBytes (bool b)

/-- Items after the first, each after a comma and on a new line. -/
def prettyItems (depth : Nat) : List Json → Bytes
  | [] => []
  | item :: items => Byte.comma :: newline depth ++ prettyAt depth item ++ prettyItems depth items

/-- Members after the first, each after a comma and on a new line. -/
def prettyMembers (depth : Nat) : List (Bytes × Json) → Bytes
  | [] => []
  | (key, value) :: members =>
    Byte.comma :: newline depth ++ quoted key ++ [Byte.colon, 0x20] ++ prettyAt depth value ++
      prettyMembers depth members

end

def pretty (j : Json) : Bytes := prettyAt 0 j

end ClusterMetrics.Json
