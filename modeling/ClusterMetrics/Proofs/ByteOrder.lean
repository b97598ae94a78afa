import Mathlib
import ClusterMetrics.Json

/-! # Texts in the order of their bytes

Texts are ordered by their characters. That is the order of their bytes in UTF-8 (`lt_iff_utf8Bytes`), since of two
characters the later one has the larger byte where their bytes first differ. -/

namespace ClusterMetrics
open String (utf8EncodeChar)

theorem utf8EncodeChar_append_lt {c d : Char} (h : c < d) (xs ys : Bytes) :
    utf8EncodeChar c ++ xs < utf8EncodeChar d ++ ys := by
  have hlt : c.val.toNat < d.val.toNat := h
  have hd : d.val.toNat < 0x110000 := by
    rcases d.valid with hvalid | ⟨-, hvalid⟩ <;> omega
  simp only [utf8EncodeChar]
  generalize c.val.toNat = m at *
  generalize d.val.toNat = n at *
  -- Longer encodings begin with larger bytes; within one length the bytes are digits of the number.
  split_ifs <;>
    simp (disch := omega) only [List.cons_append, List.nil_append, List.cons_lt_cons_iff, UInt8.lt_iff_toNat_lt,
      ← UInt8.toNat_inj, UInt8.toNat_ofNat', Nat.mod_eq_of_lt] <;>
    omega

theorem append_lt_append_left {xs ys : Bytes} (h : xs < ys) (zs : Bytes) : zs ++ xs < zs ++ ys := by
  induction zs with
  | nil => exact h
  | cons z zs ih => exact List.cons_lt_cons_iff.2 (.inr ⟨rfl, ih⟩)

theorem utf8Bytes_eq_flatMap (s : String) : utf8Bytes s = s.toList.flatMap utf8EncodeChar := by
  rw [utf8Bytes, String.toUTF8_eq_toByteArray, ← String.utf8Encode_toList, List.utf8Encode, List.data_toByteArray]

theorem flatMap_utf8EncodeChar_lt {cs ds : List Char} (h : cs < ds) :
    cs.flatMap utf8EncodeChar < ds.flatMap utf8EncodeChar := by
  induction cs generalizing ds with
  | nil =>
    cases ds with
    | nil => cases h
    | cons d ds =>
      rw [List.flatMap_cons, List.flatMap_nil]
      cases hd : utf8EncodeChar d with
      | nil => exact absurd hd String.utf8EncodeChar_ne_nil
      | cons b bs => exact .nil
  | cons c cs ih =>
    cases ds with
    | nil => cases h
    | cons d ds =>
      rw [List.flatMap_cons, List.flatMap_cons]
      rcases List.cons_lt_cons_iff.1 h with hcd | ⟨rfl, hrest⟩
      · exact utf8EncodeChar_append_lt hcd ..
      · exact append_lt_append_left (ih hrest) _

theorem lt_iff_utf8Bytes {s t : String} : s < t ↔ utf8Bytes s < utf8Bytes t := by
  have hmono : ∀ {s t : String}, s < t → utf8Bytes s < utf8Bytes t := by
    intro s t h
    rw [utf8Bytes_eq_flatMap, utf8Bytes_eq_flatMap]
    exact flatMap_utf8EncodeChar_lt (String.lt_iff_toList_lt.1 h)
  refine ⟨hmono, fun h => String.not_le.1 fun hle => ?_⟩
  by_cases he : s = t
  · exact List.lt_irrefl _ (he ▸ h)
  · have hlt : t < s := String.not_le.1 fun hle' => he (String.le_antisymm hle' hle)
    exact List.lt_asymm h (hmono hlt)

theorem le_iff_utf8Bytes {s t : String} : s ≤ t ↔ utf8Bytes s ≤ utf8Bytes t := by
  rw [← String.not_lt, lt_iff_utf8Bytes, List.not_lt]

end ClusterMetrics
