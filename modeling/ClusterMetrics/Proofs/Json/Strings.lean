import Mathlib.Data.List.Forall2
import ClusterMetrics.Json.Text
import ClusterMetrics.Proofs.Json.Grammar

/-! # Texts in strings

Every text, whatever its characters, is written as a string of the grammar (`stringText_encodeText`), and that string
stands for it (`decodeText?_encodeText`). -/

namespace ClusterMetrics.Json

/-- A byte is written as it is, by a letter or, below the space, by its number. -/
theorem escapeByte_cases (b : UInt8) :
    (∃ e ∈ [0x22, 0x5C, 0x62, 0x66, 0x6E, 0x72, 0x74], escapeByte b = [Byte.backslash, e] ∧ namedEscape? e = some b) ∨
    (b < 0x20 ∧ escapeByte b =
      [Byte.backslash, 0x75, 0x30, 0x30, hexDigit (b.toNat / 16), hexDigit (b.toNat % 16)]) ∨
    (escapeByte b = [b] ∧ b ≠ Byte.quote ∧ b ≠ Byte.backslash ∧ ¬ b < 0x20) := by
  by_cases hnamed : b ∈ [0x22, 0x5C, 0x08, 0x0C, 0x0A, 0x0D, 0x09]
  · simp only [List.mem_cons, List.not_mem_nil, or_false] at hnamed
    left
    obtain rfl | rfl | rfl | rfl | rfl | rfl | rfl := hnamed <;> exact ⟨_, by decide, rfl, rfl⟩
  · simp only [List.mem_cons, List.not_mem_nil, or_false, not_or] at hnamed
    obtain ⟨hquote, hbackslash, h8, hC, hA, hD, h9⟩ := hnamed
    right
    simp only [escapeByte, beq_iff_eq, Bool.or_eq_true, hquote, hbackslash, h8, hC, hA, hD, h9, or_self, if_false]
    by_cases hcontrol : b < 0x20
    · exact .inl ⟨hcontrol, if_pos hcontrol⟩
    · exact .inr ⟨if_neg hcontrol, hquote, hbackslash, hcontrol⟩

theorem forall_control {P : UInt8 → Prop} (h : ∀ n : Fin 32, P (UInt8.ofNat n)) {b : UInt8} (hb : b < 0x20) : P b := by
  have h := h ⟨b.toNat, UInt8.lt_iff_toNat_lt.1 hb⟩
  rwa [UInt8.ofNat_toNat] at h

/-! ### The grammar -/

theorem isHexDigit_hexDigit {n : Nat} (hn : n < 16) : Byte.isHexDigit (hexDigit n) = true := by
  have hdigits : ∀ n : Fin 16, Byte.isHexDigit (hexDigit n) = true := by decide
  exact hdigits ⟨n, hn⟩

theorem isHexDigit_numbered {b : UInt8} (hb : b < 0x20) :
    ∀ d ∈ [0x30, 0x30, hexDigit (b.toNat / 16), hexDigit (b.toNat % 16)], Byte.isHexDigit d = true := by
  have hlt : b.toNat < 32 := UInt8.lt_iff_toNat_lt.1 hb
  simp only [List.forall_mem_cons]
  exact ⟨rfl, rfl, isHexDigit_hexDigit (by omega), isHexDigit_hexDigit (by omega), nofun⟩

theorem stringText_escapeByte (b : UInt8) {text : Bytes} (h : StringText text) : StringText (escapeByte b ++ text) := by
  obtain ⟨e, he, heq, -⟩ | ⟨hb, heq⟩ | ⟨heq, hquote, hbackslash, hcontrol⟩ := escapeByte_cases b <;> rw [heq]
  · refine .named ?_ h
    revert he
    simp only [List.mem_cons]
    rintro (rfl | rfl | rfl | rfl | rfl | rfl | rfl | he) <;> simp_all
  · exact .unicode rfl (isHexDigit_numbered hb) h
  · exact .plain hquote hbackslash hcontrol h

theorem stringText_encodeText (s : String) : StringText (encodeText s) := by
  unfold encodeText
  induction utf8Bytes s with
  | nil => exact .nil
  | cons b bytes ih => exact stringText_escapeByte b ih

/-! ### What the string stands for -/

theorem hexCode?_numbered {b : UInt8} (hb : b < 0x20) :
    hexCode? 0x30 0x30 (hexDigit (b.toNat / 16)) (hexDigit (b.toNat % 16)) = some b.toNat :=
  forall_control (P := fun b => hexCode? 0x30 0x30 (hexDigit (b.toNat / 16)) (hexDigit (b.toNat % 16)) = some b.toNat)
    (by decide) hb

/-- The unit that a byte is read as after it was written. -/
def Reads (b : UInt8) (u : TextUnit) : Prop := u = .byte b ∨ b < 0x20 ∧ u = .code b.toNat

theorem textUnits?_escapeByte (b : UInt8) : ∃ u, Reads b u ∧ ∀ acc rest,
    textUnits? acc (escapeByte b ++ rest) = textUnits? (u :: acc) rest := by
  obtain ⟨e, he, heq, hname⟩ | ⟨hb, heq⟩ | ⟨heq, -, hbackslash, -⟩ := escapeByte_cases b <;> rw [heq]
  · refine ⟨.byte b, .inl rfl, fun acc rest => ?_⟩
    have hne : e ≠ 0x75 := fun h => by subst h; simp at he
    rw [List.cons_append, textUnits?.eq_def]
    simp [hne, hname]
  · refine ⟨.code b.toNat, .inr ⟨hb, rfl⟩, fun acc rest => ?_⟩
    rw [List.cons_append, textUnits?.eq_def]
    simp [hexCode?_numbered hb]
  · refine ⟨.byte b, .inl rfl, fun acc rest => ?_⟩
    rw [List.cons_append, textUnits?.eq_def]
    simp [hbackslash]

theorem textUnits?_escaped (bytes : Bytes) (acc : List TextUnit) : ∃ us, List.Forall₂ Reads bytes us ∧
    textUnits? acc (bytes.flatMap escapeByte) = some (acc.reverse ++ us) := by
  induction bytes generalizing acc with
  | nil => exact ⟨[], .nil, by simp [textUnits?]⟩
  | cons b bytes ih =>
    obtain ⟨u, hu, hread⟩ := textUnits?_escapeByte b
    obtain ⟨us, hus, hrest⟩ := ih (u :: acc)
    refine ⟨u :: us, .cons hu hus, ?_⟩
    rw [List.flatMap_cons, hread, hrest]
    simp

theorem toUTF8_control {b : UInt8} (hb : b < 0x20) : (Char.ofNat b.toNat).toString.toUTF8 = ⟨#[b]⟩ :=
  forall_control (P := fun b => (Char.ofNat b.toNat).toString.toUTF8 = ⟨#[b]⟩) (by decide) hb

theorem assemble?_cons {b : UInt8} {u : TextUnit} (h : Reads b u) (acc : ByteArray) (us : List TextUnit) :
    assemble? acc (u :: us) = assemble? (acc.push b) us := by
  obtain rfl | ⟨hb, rfl⟩ := h
  · rw [assemble?]
  · have hlt : b.toNat < 32 := UInt8.lt_iff_toNat_lt.1 hb
    have happend : acc ++ (⟨#[b]⟩ : ByteArray) = acc.push b := ByteArray.ext (by simp)
    rw [assemble?.eq_def]
    dsimp only
    rw [if_neg (by omega), if_neg (by omega), toUTF8_control hb, happend]

theorem assemble?_read {bytes : Bytes} {us : List TextUnit} (h : List.Forall₂ Reads bytes us) (acc : ByteArray) :
    assemble? acc us = some ⟨acc.data ++ bytes.toArray⟩ := by
  induction h generalizing acc with
  | nil => simp [assemble?]
  | cons hu _ ih =>
    rw [assemble?_cons hu, ih]
    simp

theorem fromUTF8?_toUTF8 (s : String) : String.fromUTF8? s.toUTF8 = some s := by
  simp only [String.fromUTF8?, String.toUTF8_eq_toByteArray, dif_pos s.isValidUTF8]
  rfl

theorem decodeText?_encodeText (s : String) : decodeText? (encodeText s) = some s := by
  obtain ⟨us, hus, hunits⟩ := textUnits?_escaped (utf8Bytes s) []
  have hbytes := assemble?_read hus .empty
  rw [decodeText?, encodeText, hunits]
  simp only [Option.bind_eq_bind, List.reverse_nil, List.nil_append, Option.bind_some, hbytes]
  simpa [utf8Bytes] using fromUTF8?_toUTF8 s

end ClusterMetrics.Json
