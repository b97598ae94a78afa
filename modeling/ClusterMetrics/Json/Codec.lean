import ClusterMetrics.Json.Number
import ClusterMetrics.Json.Reader
import ClusterMetrics.Json.Text
import ClusterMetrics.Json.Writer
import ClusterMetrics.KeyMap

/-! # Values as JSON and back

A codec reads values of one type and writes them. Reading counts how many containers may still be
opened, and takes exactly the forms given here: nothing is converted. -/

namespace ClusterMetrics

/-- How values of a type are read from JSON, within so many containers, and written. -/
structure Codec (α : Type) where
  read : Nat → Json → Option α
  write : α → Json

namespace Json

/-- How many containers may be nested in one another. -/
def depthLimit : Nat := 127

def integer? : Json → Option Int
  | number text => (numberParts text).integer?
  | _ => none

def double? : Json → Option Binary64
  | number text => (numberParts text).double?
  | _ => none

def text? : Json → Option String
  | string text => decodeText? text
  | _ => none

/-- The members by the texts that their keys stand for. -/
def namedMembers? (members : List (Bytes × Json)) : Option (List (String × Json)) :=
  members.mapM fun (key, value) => do return (← decodeText? key, value)

mutual

/-- Whether every string in the value stands for a text, every number for a double, and no more than
`depth` containers are nested. -/
def isReadable (depth : Nat) : Json → Bool
  | number text => (numberParts text).double?.isSome
  | string text => (decodeText? text).isSome
  | array items =>
    match depth with
    | 0 => false
    | depth + 1 => areReadable depth items
  | object members =>
    match depth with
    | 0 => false
    | depth + 1 => areMembersReadable depth members
  | null => true
  | bool _ => true

def areReadable (depth : Nat) : List Json → Bool
  | [] => true
  | item :: items => isReadable depth item && areReadable depth items

def areMembersReadable (depth : Nat) : List (Bytes × Json) → Bool
  | [] => true
  | (key, value) :: members =>
    (decodeText? key).isSome && isReadable depth value && areMembersReadable depth members

end

end Json

namespace Codec
variable {α : Type}

/-! ### Scalars -/

def bool : Codec Bool where
  read _
    | .bool b => some b
    | _ => none
  write := .bool

def text : Codec String where
  read _ j := j.text?
  write := .ofText

/-- Integers of a range. -/
def integer (low high : Int) (ofInt : Int → α) (toInt : α → Int) : Codec α where
  read _ j := (j.integer?.filter fun n => low ≤ n && n ≤ high).map ofInt
  write a := .ofInt (toInt a)

def uint64 : Codec UInt64 := integer 0 0xFFFFFFFFFFFFFFFF (fun n => UInt64.ofNat n.toNat) fun n => n.toNat

def uint32 : Codec UInt32 := integer 0 0xFFFFFFFF (fun n => UInt32.ofNat n.toNat) fun n => n.toNat

def int64 : Codec Int64 := integer (-0x8000000000000000) 0x7FFFFFFFFFFFFFFF Int64.ofInt Int64.toInt

def int32 : Codec Int32 := integer (-0x80000000) 0x7FFFFFFF Int32.ofInt Int32.toInt

def double : Codec Binary64 where
  read _ j := j.double?
  write := .ofBinary64

/-! ### Containers -/

def list (c : Codec α) : Codec (List α) where
  read
    | depth + 1, .array items => items.mapM (c.read depth)
    | _, _ => none
  write as := .array (as.map c.write)

/-- An object whose keys are data; of members with one key the last counts. -/
def keyMap (c : Codec α) : Codec (KeyMap α) where
  read
    | depth + 1, .object members => do
      let named ← Json.namedMembers? members
      return .ofList (← named.mapM fun (key, value) => do return (key, ← c.read depth value))
    | _, _ => none
  write m := .object (m.entries.map fun (key, value) => (Json.encodeText key, c.write value))

/-- `null` stands for none. -/
def option (c : Codec α) : Codec (Option α) where
  read
    | _, .null => some none
    | depth, j => (c.read depth j).map some
  write
    | none => .null
    | some a => c.write a

/-- `null` stands for the default when it is read. -/
def orDefault [Inhabited α] (c : Codec α) : Codec α where
  read
    | _, .null => some default
    | depth, j => c.read depth j
  write := c.write

section
variable {c : Codec α} {depth : Nat} {j : Json}

theorem read_option (hj : j ≠ .null) : c.option.read depth j = (c.read depth j).map some := by
  cases j with
  | null => exact absurd rfl hj
  | _ => rfl

theorem read_orDefault [Inhabited α] (hj : j ≠ .null) : c.orDefault.read depth j = c.read depth j := by
  cases j with
  | null => exact absurd rfl hj
  | _ => rfl

end

/-! ### Whole inputs -/

def decode? (c : Codec α) (bytes : Bytes) : Option α :=
  (Json.parse? bytes).bind (c.read Json.depthLimit)

def compact (c : Codec α) (a : α) : Bytes := (c.write a).compact

def pretty (c : Codec α) (a : α) : Bytes := (c.write a).pretty

end Codec

end ClusterMetrics
