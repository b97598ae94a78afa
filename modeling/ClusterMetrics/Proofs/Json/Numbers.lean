import Mathlib.Data.List.TakeWhile
import ClusterMetrics.Json.Codec
import ClusterMetrics.Proofs.Decimal
import ClusterMetrics.Proofs.Json.Grammar

/-! # Numbers as written

Integers and doubles are written as numbers of the grammar (`numberText_ofInt`, `numberText_toChars`), and every
integer is read again as it was (`integer?_ofInt`). -/

namespace ClusterMetrics

namespace Json

/-! ### Digits -/

theorem toNat_charByte {c : Char} (h : c.isDigit = true) : (UInt8.ofNat c.toNat).toNat = c.toNat := by
  obtain ⟨-, hnine⟩ := Text.toNat_of_isDigit h
  exact UInt8.toNat_ofNat_of_lt' (Nat.lt_of_le_of_lt hnine (by decide))

theorem isDigit_charByte {c : Char} (h : c.isDigit = true) : Byte.isDigit (UInt8.ofNat c.toNat) = true := by
  simp only [Byte.isDigit, UInt8.le_iff_toNat_le, toNat_charByte h, Bool.and_eq_true, decide_eq_true_eq]
  exact Text.toNat_of_isDigit h

theorem charByte_ne_zero {c : Char} (h : c.isDigit = true) (hc : c ≠ '0') : UInt8.ofNat c.toNat ≠ Byte.zero := by
  intro heq
  have hnat := congrArg UInt8.toNat heq
  rw [toNat_charByte h] at hnat
  exact hc (Char.toNat_inj.1 hnat)

@[simp] theorem charBytes_append (as bs : List Char) : charBytes (as ++ bs) = charBytes as ++ charBytes bs :=
  List.map_append

@[simp] theorem charBytes_cons (c : Char) (cs : List Char) :
    charBytes (c :: cs) = UInt8.ofNat c.toNat :: charBytes cs := rfl

theorem digits_charBytes {cs : List Char} (h : ∀ c ∈ cs, c.isDigit = true) : Digits (charBytes cs) :=
  List.forall_mem_map.2 fun c hc => isDigit_charByte (h c hc)

theorem charBytes_ne_nil {cs : List Char} (h : cs ≠ []) : charBytes cs ≠ [] := by simpa [charBytes] using h

theorem ofDigits_charBytes {cs : List Char} (h : ∀ c ∈ cs, c.isDigit = true) :
    ofDigits (digitValues (charBytes cs)) = Nat.ofDigitChars 10 cs 0 := by
  have hfold : ∀ init, (digitValues (charBytes cs)).foldl (fun n d => 10 * n + d) init = Nat.ofDigitChars 10 cs init := by
    induction cs with
    | nil => exact fun init => rfl
    | cons c cs ih =>
      intro init
      obtain ⟨hc, hcs⟩ := List.forall_mem_cons.1 h
      refine Eq.trans ?_ (ih hcs _)
      simp [digitValues, toNat_charByte hc]
  exact hfold 0

theorem ofDigits_decimal (n : Nat) : ofDigits (digitValues (charBytes (Text.decimal n))) = n := by
  rw [ofDigits_charBytes fun c => Text.isDigit_of_mem_decimal]
  exact Nat.ofDigitChars_ten_toDigits

/-! ### Integers -/

theorem takeWhile_digits {ds : Bytes} (h : Digits ds) : ds.takeWhile Byte.isDigit = ds :=
  List.takeWhile_eq_self_iff.2 h

theorem dropWhile_digits {ds : Bytes} (h : Digits ds) : ds.dropWhile Byte.isDigit = [] :=
  List.dropWhile_eq_nil_iff.2 h

theorem numberParts_digits {ds : Bytes} (h : Digits ds) : numberParts ds = ⟨false, digitValues ds, [], none⟩ := by
  have hminus : (ds.head? == some Byte.minus) = false := by
    cases ds with
    | nil => rfl
    | cons d ds =>
      have hd := h d List.mem_cons_self
      refine beq_eq_false_iff_ne.2 fun heq => ?_
      cases heq
      exact Bool.false_ne_true hd
  simp [numberParts, hminus, takeWhile_digits h, dropWhile_digits h, digitValues]

theorem numberParts_minus {ds : Bytes} (h : Digits ds) :
    numberParts (Byte.minus :: ds) = ⟨true, digitValues ds, [], none⟩ := by
  simp [numberParts, takeWhile_digits h, dropWhile_digits h, digitValues]

theorem wholeText_decimal (n : Nat) : WholeText (charBytes (Text.decimal n)) := by
  by_cases hn : n = 0
  · subst hn; exact .zero
  · obtain ⟨d, ds, heq, hd⟩ := Text.decimal_eq_cons hn
    have hdigits : ∀ c ∈ d :: ds, c.isDigit = true := fun c hc => Text.isDigit_of_mem_decimal (heq ▸ hc)
    obtain ⟨hfirst, hrest⟩ := List.forall_mem_cons.1 hdigits
    rw [heq]
    exact .digits (isDigit_charByte hfirst) (charByte_ne_zero hfirst hd) (digits_charBytes hrest)

theorem unsignedText_decimal (n : Nat) : UnsignedText (charBytes (Text.decimal n)) := by
  simpa using UnsignedText.mk (wholeText_decimal n) .absent .absent

theorem integer?_ofInt (n : Int) : (ofInt n).integer? = some n := by
  have hdigits : Digits (charBytes (Text.decimal n.natAbs)) :=
    digits_charBytes fun c => Text.isDigit_of_mem_decimal
  by_cases hn : n < 0
  · have hparts : numberParts (charBytes ('-' :: Text.decimal n.natAbs)) =
        ⟨true, digitValues (charBytes (Text.decimal n.natAbs)), [], none⟩ := numberParts_minus hdigits
    have hne : (n.natAbs == 0) = false := beq_eq_false_iff_ne.2 (by omega)
    have hneg : -(n.natAbs : Int) = n := by omega
    simp only [ofInt, if_pos hn, integer?, hparts, NumberParts.integer?, ofDigits_decimal, NumberParts.isWhole]
    rw [hne, hneg]
    rfl
  · have hpos : (n.natAbs : Int) = n := by omega
    simp only [ofInt, if_neg hn, integer?, numberParts_digits hdigits, NumberParts.integer?, ofDigits_decimal,
      NumberParts.isWhole]
    rw [hpos]
    rfl

theorem numberText_ofInt (n : Int) :
    NumberText (charBytes (if n < 0 then '-' :: Text.decimal n.natAbs else Text.decimal n.natAbs)) := by
  split
  · exact .negative (unsignedText_decimal _)
  · exact .positive (unsignedText_decimal _)

/-! ### Doubles -/

theorem fractionText_point {cs : List Char} (hne : cs ≠ []) (h : ∀ c ∈ cs, c.isDigit = true) :
    FractionText (charBytes ('.' :: cs)) :=
  .digits (charBytes_ne_nil hne) (digits_charBytes h)

theorem unsignedText_point (whole : List Char) {places : List Char} (hw : WholeText (charBytes whole)) (hne : places ≠ [])
    (h : ∀ c ∈ places, c.isDigit = true) : UnsignedText (charBytes (whole ++ '.' :: places)) := by
  rw [charBytes_append, ← List.append_nil (charBytes ('.' :: places)), ← List.append_assoc]
  exact .mk hw (fractionText_point hne h) .absent

theorem exponentText {sign : Char} (hs : sign = '+' ∨ sign = '-') (n : Nat) :
    ExponentText (charBytes (['e', sign] ++ Text.decimal n)) := by
  refine .signed (e := 0x65) rfl ?_ (charBytes_ne_nil (Text.decimal_ne_nil n))
    (digits_charBytes fun c => Text.isDigit_of_mem_decimal)
  rcases hs with rfl | rfl
  · exact .inl rfl
  · exact .inr rfl

theorem numberText_toChars (x : FiniteBinary64) : NumberText (charBytes x.toChars) := by
  unfold FiniteBinary64.toChars
  extract_lets v ds point exponent body
  suffices hbody : UnsignedText (charBytes body) by
    split
    · exact .negative hbody
    · exact .positive hbody
  have hplace : ∀ c ∈ ['0'], c.isDigit = true := List.forall_mem_singleton.2 rfl
  unfold body
  split
  next => exact unsignedText_point ['0'] .zero (List.cons_ne_nil _ _) hplace
  next hzero =>
  have hds : ∀ c ∈ ds, c.isDigit = true := fun c => Text.isDigit_of_mem_decimal
  obtain ⟨d, rest, heq, hd⟩ := Text.decimal_eq_cons hzero
  have heq : ds = d :: rest := heq
  obtain ⟨hfirst, hrest⟩ := List.forall_mem_cons.1 (heq ▸ hds)
  -- digits after the first make no leading zero
  have hwhole : ∀ cs, (∀ c ∈ cs, c.isDigit = true) → WholeText (charBytes (d :: cs)) := fun cs hcs =>
    .digits (isDigit_charByte hfirst) (charByte_ne_zero hfirst hd) (digits_charBytes hcs)
  have hlength : ds.length = rest.length + 1 := by rw [heq]; rfl
  split
  next =>
    rw [heq]
    refine unsignedText_point _ (hwhole _ fun c hc => ?_) (List.cons_ne_nil _ _) hplace
    exact (List.mem_append.1 hc).elim (hrest c) Text.isDigit_of_mem_zeros
  split
  next hexponent hpoint =>
    have hplaces : ds.drop point.toNat ≠ [] := by
      rw [ne_eq, List.drop_eq_nil_iff]
      omega
    have htake : ds.take point.toNat = d :: rest.take (point.toNat - 1) := by
      rw [heq, List.take_cons (by omega)]
    refine unsignedText_point _ ?_ hplaces fun c hc => hds c (List.mem_of_mem_drop hc)
    rw [htake]
    exact hwhole _ fun c hc => hrest c (List.mem_of_mem_take hc)
  split
  next =>
    refine unsignedText_point ['0'] .zero ?_ fun c hc => ?_
    · rw [heq]; simp
    · exact (List.mem_append.1 hc).elim Text.isDigit_of_mem_zeros (hds c)
  next =>
    have hsign : ∀ b : Bool, (if b then '+' else '-') = '+' ∨ (if b then '+' else '-') = '-' := by decide
    have hpower := exponentText (hsign (0 ≤ exponent)) exponent.natAbs
    have hfraction : FractionText (charBytes (if ds.length = 1 then [] else '.' :: ds.drop 1)) := by
      split
      next => exact .absent
      next hne =>
        rw [heq]
        refine fractionText_point ?_ hrest
        rintro rfl
        exact hne hlength
    have hnumber := UnsignedText.mk (hwhole [] nofun) hfraction hpower
    rw [← charBytes_append, ← charBytes_append] at hnumber
    simpa [heq] using hnumber

end Json

end ClusterMetrics
