/-! # Why a stream stops before its final frame

An error says what went wrong in one line. A byte is shown in it as the character with its number, between single
quotes; characters that do not print, and spaces other than U+0020, are written by their number in hexadecimal. -/

namespace ClusterMetrics

/-! ### A byte as a quoted character -/

namespace Text

/-- Whether the first 256 characters include `c` among those that leave a mark, or it is a space. -/
def isPrintableLatin (c : Char) : Bool :=
  let n := c.toNat
  (0x20 ≤ n && n ≤ 0x7E) || (0xA1 ≤ n && n ≤ 0xFF && n != 0xAD)

def escapedLatin (c : Char) : String :=
  match c with
  | '\x00' => "\\0"
  | '\t' => "\\t"
  | '\r' => "\\r"
  | '\n' => "\\n"
  | '\'' => "\\'"
  | '\\' => "\\\\"
  | c =>
    if isPrintableLatin c then String.singleton c
    else "\\u\x7b" ++ String.ofList (Nat.toDigits 16 c.toNat) ++ "\x7d"

def quotedByte (b : UInt8) : String :=
  "'" ++ escapedLatin (Char.ofNat b.toNat) ++ "'"

end Text

/-! ### Errors -/

inductive StreamError where
  /-- The body could not be opened or read. -/
  | io (text : String)
  /-- A frame begins with a byte that opens neither an object nor an array. -/
  | notAFrame (found : UInt8)
  /-- A frame is longer than so many bytes. -/
  | frameTooLarge (limit : Nat)
  /-- The text of a frame is not the JSON of one. Where in the text a reader stops, and why, is not kept. -/
  | malformed
  /-- The body ended before the final frame. -/
  | unexpectedEnd
  | cancelled
deriving Repr, DecidableEq

namespace StreamError

def isCancelled (e : StreamError) : Bool := e = cancelled

def isUnexpectedEnd (e : StreamError) : Bool := e = unexpectedEnd

/-- Whether the error passes on one of the body or of what was read from it. -/
def hasCause : StreamError → Bool
  | io _ | notAFrame _ | frameTooLarge _ | malformed => true
  | unexpectedEnd | cancelled => false

/-- The line that is shown for an error. That of a malformed frame stops at its kind: the reason that a JSON reader
gives behind it, in words of its own, is left out. -/
def message : StreamError → String
  | io text => s!"I/O error: {text}"
  | notAFrame found => s!"Decode error: expected a metrics object, found {Text.quotedByte found}"
  | frameTooLarge limit => s!"Decode error: frame exceeds {limit} bytes"
  | malformed => "Decode error"
  | unexpectedEnd => "stream ended before the final frame"
  | cancelled => "stream cancelled"

end StreamError

end ClusterMetrics
