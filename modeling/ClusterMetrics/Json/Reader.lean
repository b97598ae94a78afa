import ClusterMetrics.Json

/-! # Reading JSON

The grammar of RFC 8259 as a machine that takes one byte at a time. Its state holds the containers
that are open, innermost first, and what may come next; nesting is bounded by memory alone. -/

namespace ClusterMetrics.Json

/-- A container that is still open. Items and members are held latest first. -/
inductive Container where
  | array (items : List Json)
  /-- `key` is the key whose value comes next or came last. -/
  | object (members : List (Bytes × Json)) (key : Bytes)

/-- How far a number has been read. -/
inductive NumberPart where
  | minus | zero | whole | point | fraction | exponent | sign | power
deriving Repr, DecidableEq

namespace NumberPart

/-- How far the number has been read after one more byte, if the byte can belong to it. -/
def next? (part : NumberPart) (b : UInt8) : Option NumberPart :=
  match part with
  | minus => if b == Byte.zero then some zero else if Byte.isDigit b then some whole else none
  | zero =>
    if b == Byte.point then some point else if Byte.isExponent b then some exponent else none
  | whole =>
    if Byte.isDigit b then some whole
    else if b == Byte.point then some point else if Byte.isExponent b then some exponent else none
  | point => if Byte.isDigit b then some fraction else none
  | fraction =>
    if Byte.isDigit b then some fraction else if Byte.isExponent b then some exponent else none
  | exponent =>
    if b == Byte.plus || b == Byte.minus then some sign
    else if Byte.isDigit b then some power else none
  | sign | power => if Byte.isDigit b then some power else none

/-- Whether the number may end here. -/
def isComplete : NumberPart → Bool
  | zero | whole | fraction | power => true
  | minus | point | exponent | sign => false

end NumberPart

/-- Where in an escape sequence a string has been read to. -/
inductive Escape where
  | none
  | started
  /-- After `\u`, so many hexadecimal digits are still to come. -/
  | unicode (missing : Nat)
deriving Repr, DecidableEq

namespace Escape

/-- The part of the escape sequence reached after one more byte of a string, the closing quote
apart. -/
def next? (e : Escape) (b : UInt8) : Option Escape :=
  match e with
  | none =>
    if b == Byte.backslash then some started
    else if b < 0x20 then Option.none
    else some none
  | started =>
    if b == 0x75 then some (unicode 4)
    else if [0x22, 0x5C, 0x2F, 0x62, 0x66, 0x6E, 0x72, 0x74].contains b then some none
    else Option.none
  | unicode missing =>
    if Byte.isHexDigit b then some (if missing ≤ 1 then none else unicode (missing - 1)) else Option.none

end Escape

/-- What may come next. Texts are held latest byte first. -/
inductive Mode where
  | value
  /-- A value, or the end of an array that is still empty. -/
  | firstItem
  | key
  /-- A key, or the end of an object that is still empty. -/
  | firstKey
  | colon
  /-- A comma or the end of the innermost container. -/
  | separator
  | word (rest : Bytes) (meaning : Json)
  | number (part : NumberPart) (text : Bytes)
  | string (isKey : Bool) (escape : Escape) (text : Bytes)
  /-- Nothing but blanks. -/
  | done (value : Json)

structure Reader where
  containers : List Container
  mode : Mode

namespace Reader

def start : Reader := ⟨[], .value⟩

/-- After a whole value. -/
def finish (containers : List Container) (value : Json) : Reader :=
  match containers with
  | [] => ⟨[], .done value⟩
  | .array items :: rest => ⟨.array (value :: items) :: rest, .separator⟩
  | .object members key :: rest => ⟨.object ((key, value) :: members) key :: rest, .separator⟩

/-- After a whole key. -/
def finishKey (containers : List Container) (key : Bytes) : Option Reader :=
  match containers with
  | .object members _ :: rest => some ⟨.object members key :: rest, .colon⟩
  | _ => none

/-- After the closing bracket of an array. -/
def closeArray (containers : List Container) : Option Reader :=
  match containers with
  | .array items :: rest => some (finish rest (.array items.reverse))
  | _ => none

/-- After the closing brace of an object. -/
def closeObject (containers : List Container) : Option Reader :=
  match containers with
  | .object members _ :: rest => some (finish rest (.object members.reverse))
  | _ => none

/-- After the first byte of a value. -/
def beginValue (containers : List Container) (b : UInt8) : Option Reader :=
  if b == Byte.openBrace then some ⟨.object [] [] :: containers, .firstKey⟩
  else if b == Byte.openBracket then some ⟨.array [] :: containers, .firstItem⟩
  else if b == Byte.quote then some ⟨containers, .string false .none []⟩
  else if b == Byte.minus then some ⟨containers, .number .minus [b]⟩
  else if b == Byte.zero then some ⟨containers, .number .zero [b]⟩
  else if Byte.isDigit b then some ⟨containers, .number .whole [b]⟩
  else if b == 0x74 then some ⟨containers, .word [0x72, 0x75, 0x65] (.bool true)⟩
  else if b == 0x66 then some ⟨containers, .word [0x61, 0x6C, 0x73, 0x65] (.bool false)⟩
  else if b == 0x6E then some ⟨containers, .word [0x75, 0x6C, 0x6C] .null⟩
  else none

/-- After a comma. -/
def afterComma (containers : List Container) : Option Reader :=
  match containers with
  | .array _ :: _ => some ⟨containers, .value⟩
  | .object .. :: _ => some ⟨containers, .key⟩
  | [] => none

/-- One byte after a whole value. -/
def stepAfterValue (r : Reader) (b : UInt8) : Option Reader :=
  if Byte.isBlank b then some r
  else match r.mode with
    | .separator =>
      if b == Byte.comma then afterComma r.containers
      else if b == Byte.closeBracket then closeArray r.containers
      else if b == Byte.closeBrace then closeObject r.containers
      else none
    | _ => none

def step (r : Reader) (b : UInt8) : Option Reader :=
  match r.mode with
  | .value => if Byte.isBlank b then some r else beginValue r.containers b
  | .firstItem =>
    if Byte.isBlank b then some r
    else if b == Byte.closeBracket then closeArray r.containers
    else beginValue r.containers b
  | .key =>
    if Byte.isBlank b then some r
    else if b == Byte.quote then some ⟨r.containers, .string true .none []⟩
    else none
  | .firstKey =>
    if Byte.isBlank b then some r
    else if b == Byte.quote then some ⟨r.containers, .string true .none []⟩
    else if b == Byte.closeBrace then closeObject r.containers
    else none
  | .colon =>
    if Byte.isBlank b then some r
    else if b == Byte.colon then some ⟨r.containers, .value⟩
    else none
  | .separator | .done _ => stepAfterValue r b
  | .word rest meaning =>
    match rest with
    | [] => none
    | [c] => if b == c then some (finish r.containers meaning) else none
    | c :: rest => if b == c then some ⟨r.containers, .word rest meaning⟩ else none
  | .number part text =>
    match part.next? b with
    | some part => some ⟨r.containers, .number part (b :: text)⟩
    | none =>
      if part.isComplete then stepAfterValue (finish r.containers (.number text.reverse)) b else none
  | .string isKey escape text =>
    if escape = .none ∧ b = Byte.quote then
      if isKey then finishKey r.containers text.reverse
      else some (finish r.containers (.string text.reverse))
    else (escape.next? b).map fun e => ⟨r.containers, .string isKey e (b :: text)⟩

def run (r : Reader) (bytes : Bytes) : Option Reader := bytes.foldlM step r

/-- The value read, if the input may end here. -/
def value? (r : Reader) : Option Json :=
  match r.mode with
  | .done v => some v
  | .number part text => if part.isComplete && r.containers.isEmpty then some (.number text.reverse) else none
  | _ => none

end Reader

/-- The value that is all of the input, blanks around it apart. -/
def parse? (bytes : Bytes) : Option Json := (Reader.start.run bytes).bind Reader.value?

end ClusterMetrics.Json
