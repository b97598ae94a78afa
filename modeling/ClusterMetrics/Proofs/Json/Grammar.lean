import ClusterMetrics.Json

/-! # The grammar of JSON texts

Which bytes are the text of which value, rule by rule. Strings are sequences of bytes: what they stand for,
and whether they are UTF-8, is not asked here, and nesting is not limited. -/

namespace ClusterMetrics.Json

def Blanks (text : Bytes) : Prop := ∀ b ∈ text, Byte.isBlank b = true

/-- What may stand between the quotes of a string. -/
inductive StringText : Bytes → Prop where
  | nil : StringText []
  | plain {b : UInt8} {text : Bytes} (hquote : b ≠ Byte.quote) (hbackslash : b ≠ Byte.backslash)
      (hcontrol : ¬ b < 0x20) (h : StringText text) : StringText (b :: text)
  /-- A quote, backslash, slash, or one of the letters `b`, `f`, `n`, `r` and `t` may be escaped. -/
  | named {c : UInt8} {text : Bytes} (hc : c ∈ [0x22, 0x5C, 0x2F, 0x62, 0x66, 0x6E, 0x72, 0x74])
      (h : StringText text) : StringText (Byte.backslash :: c :: text)
  /-- After `\u` come four hexadecimal digits. -/
  | unicode {digits text : Bytes} (hlen : digits.length = 4) (hd : ∀ d ∈ digits, Byte.isHexDigit d = true)
      (h : StringText text) : StringText (Byte.backslash :: 0x75 :: digits ++ text)

/-! ### Numbers -/

def Digits (text : Bytes) : Prop := ∀ d ∈ text, Byte.isDigit d = true

/-- No leading zeros. -/
inductive WholeText : Bytes → Prop where
  | zero : WholeText [Byte.zero]
  | digits {d : UInt8} {ds : Bytes} (hd : Byte.isDigit d = true) (hzero : d ≠ Byte.zero) (h : Digits ds) :
      WholeText (d :: ds)

inductive FractionText : Bytes → Prop where
  | absent : FractionText []
  | digits {ds : Bytes} (hne : ds ≠ []) (h : Digits ds) : FractionText (Byte.point :: ds)

inductive ExponentText : Bytes → Prop where
  | absent : ExponentText []
  | unsigned {e : UInt8} {ds : Bytes} (he : Byte.isExponent e = true) (hne : ds ≠ []) (h : Digits ds) :
      ExponentText (e :: ds)
  | signed {e sign : UInt8} {ds : Bytes} (he : Byte.isExponent e = true)
      (hs : sign = Byte.plus ∨ sign = Byte.minus) (hne : ds ≠ []) (h : Digits ds) :
      ExponentText (e :: sign :: ds)

inductive UnsignedText : Bytes → Prop where
  | mk {whole fraction exponent : Bytes} (hw : WholeText whole) (hf : FractionText fraction)
      (he : ExponentText exponent) : UnsignedText (whole ++ fraction ++ exponent)

inductive NumberText : Bytes → Prop where
  | positive {text : Bytes} (h : UnsignedText text) : NumberText text
  | negative {text : Bytes} (h : UnsignedText text) : NumberText (Byte.minus :: text)

/-! ### Values -/

/-- The parts that texts are built of, each with what it stands for. -/
inductive Phrase where
  | value (v : Json)
  /-- A value with blanks around it. -/
  | item (v : Json)
  | items (vs : List Json)
  | member (key : Bytes) (v : Json)
  | members (ms : List (Bytes × Json))

inductive Derives : Phrase → Bytes → Prop where
  | null : Derives (.value .null) [0x6E, 0x75, 0x6C, 0x6C]
  | true : Derives (.value (.bool true)) [0x74, 0x72, 0x75, 0x65]
  | false : Derives (.value (.bool false)) [0x66, 0x61, 0x6C, 0x73, 0x65]
  | number {text : Bytes} (h : NumberText text) : Derives (.value (.number text)) text
  | string {text : Bytes} (h : StringText text) :
      Derives (.value (.string text)) (Byte.quote :: text ++ [Byte.quote])
  | emptyArray {blanks : Bytes} (h : Blanks blanks) :
      Derives (.value (.array [])) (Byte.openBracket :: blanks ++ [Byte.closeBracket])
  | array {vs : List Json} {text : Bytes} (h : Derives (.items vs) text) :
      Derives (.value (.array vs)) (Byte.openBracket :: text ++ [Byte.closeBracket])
  | emptyObject {blanks : Bytes} (h : Blanks blanks) :
      Derives (.value (.object [])) (Byte.openBrace :: blanks ++ [Byte.closeBrace])
  | object {ms : List (Bytes × Json)} {text : Bytes} (h : Derives (.members ms) text) :
      Derives (.value (.object ms)) (Byte.openBrace :: text ++ [Byte.closeBrace])
  | item {v : Json} {before text after : Bytes} (hb : Blanks before) (h : Derives (.value v) text)
      (ha : Blanks after) : Derives (.item v) (before ++ text ++ after)
  | lastItem {v : Json} {text : Bytes} (h : Derives (.item v) text) : Derives (.items [v]) text
  | moreItems {v : Json} {vs : List Json} {text rest : Bytes} (h : Derives (.item v) text)
      (hs : Derives (.items vs) rest) : Derives (.items (v :: vs)) (text ++ Byte.comma :: rest)
  | member {key : Bytes} {v : Json} {before after text : Bytes} (hb : Blanks before)
      (hk : StringText key) (ha : Blanks after) (h : Derives (.item v) text) :
      Derives (.member key v) (before ++ (Byte.quote :: key ++ [Byte.quote]) ++ after ++ Byte.colon :: text)
  | lastMember {key : Bytes} {v : Json} {text : Bytes} (h : Derives (.member key v) text) :
      Derives (.members [(key, v)]) text
  | moreMembers {key : Bytes} {v : Json} {ms : List (Bytes × Json)} {text rest : Bytes}
      (h : Derives (.member key v) text) (hs : Derives (.members ms) rest) :
      Derives (.members ((key, v) :: ms)) (text ++ Byte.comma :: rest)

/-- The text of an object or an array, without anything around it. -/
inductive ContainerText : Bytes → Prop where
  | array {vs : List Json} {text : Bytes} (h : Derives (.value (.array vs)) text) : ContainerText text
  | object {ms : List (Bytes × Json)} {text : Bytes} (h : Derives (.value (.object ms)) text) :
      ContainerText text

end ClusterMetrics.Json
