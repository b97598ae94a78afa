import ClusterMetrics.Category
import ClusterMetrics.Json.Codec
import ClusterMetrics.Text.Blank
import ClusterMetrics.Text.Decimal

/-! # Masks as text and in JSON

As text a mask is a decimal number or a comma list of names of categories, in JSON it is a number. Only names are
written as text, so undefined bits are left out. -/

namespace ClusterMetrics.CategoryMask

/-! ### Text -/

/-- The names of the categories selected; a mask without any bit is `none`. -/
def format (m : CategoryMask) : String :=
  if m.isEmpty then "none" else ",".intercalate (m.categories.map Category.name)

/-- A text that is neither a mask nor the name of a category. -/
structure ParseError where
  input : String
deriving Repr, DecidableEq

def ParseError.message (e : ParseError) : String :=
  s!"unknown metric type '{e.input}', expected a decimal mask or a comma list of: all, none, " ++
    ", ".intercalate (Category.all.map Category.name)

/-- What one entry of a list selects, whatever the case of its letters. -/
def ofName? (name : List Char) : Option CategoryMask :=
  let lower := String.ofList (Text.toLowerAscii name)
  if lower = "all" then some all
  else if lower = "none" then some none
  else (Category.all.find? (·.name == lower)).map single

def parse (input : String) : Except ParseError CategoryMask :=
  let text := Text.trim input.toList
  match Text.readDecimal? text with
  | some n =>
    if n < 0x100000000 then .ok ⟨UInt32.ofNat n⟩ else .error ⟨String.ofList text⟩
  | .none =>
    (Text.commaList text).foldlM (fun m name =>
      match ofName? name with
      | some x => .ok (m.union x)
      | .none => .error ⟨String.ofList name⟩) none

/-! ### JSON -/

/-- Masks are numbers in JSON. -/
def codec : Codec CategoryMask where
  read depth j := (Codec.uint32.read depth j).map CategoryMask.mk
  write m := Codec.uint32.write m.bits

end ClusterMetrics.CategoryMask
