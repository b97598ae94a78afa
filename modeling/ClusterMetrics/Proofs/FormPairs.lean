import ClusterMetrics.Form
import ClusterMetrics.Proofs.CommaLists
import ClusterMetrics.Proofs.Json.Strings

/-! # Form-encoded pairs are read as they were written

Whatever the characters of keys and values, the pairs of a line are the ones it was written from (`decode_encode`): what
stands for a byte holds none of the characters that part pairs, keys and values, and is read as the byte. -/

namespace ClusterMetrics

/-! ### Bytes that are UTF-8 -/

namespace Utf8

theorem size_utf8Encode_singleton (c : Char) : [c].utf8Encode.size = c.utf8Size := by
  rw [List.utf8Encode_singleton, List.size_toByteArray, String.length_utf8EncodeChar]

theorem pieceAt_append (before after : ByteArray) (c : Char) :
    pieceAt (before ++ ([c].utf8Encode ++ after)) before.size = .scalar c := by
  have hchar : (before ++ ([c].utf8Encode ++ after)).utf8DecodeChar? before.size = some c := by
    rw [ByteArray.utf8DecodeChar?_eq_utf8DecodeChar?_extract,
      ByteArray.extract_append_eq_right rfl ByteArray.size_append]
    exact List.utf8DecodeChar?_utf8Encode_singleton_append
  rw [pieceAt, hchar]

/-- From the end of some of the characters on, the others are read. -/
theorem lossyFrom_utf8Encode (before after : List Char) (acc : String) :
    lossyFrom (before ++ after).utf8Encode before.utf8Encode.size acc = acc ++ String.ofList after := by
  induction after generalizing before acc with
  | nil =>
    rw [List.append_nil, lossyFrom, dif_neg (Nat.lt_irrefl _)]
    simp
  | cons c after ih =>
    have hbytes : (before ++ c :: after).utf8Encode = before.utf8Encode ++ ([c].utf8Encode ++ after.utf8Encode) := by
      rw [List.utf8Encode_append, List.utf8Encode_cons]
    have hpiece := pieceAt_append before.utf8Encode after.utf8Encode c
    have hlt : before.utf8Encode.size < (before ++ c :: after).utf8Encode.size := by
      have hpos := c.utf8Size_pos
      rw [hbytes, ByteArray.size_append, ByteArray.size_append, size_utf8Encode_singleton]
      omega
    have hsize : before.utf8Encode.size + c.utf8Size = (before ++ [c]).utf8Encode.size := by
      rw [List.utf8Encode_append, ByteArray.size_append, size_utf8Encode_singleton]
    have hrest := ih (before ++ [c]) (acc.push c)
    rw [List.append_assoc, List.singleton_append] at hrest
    rw [lossyFrom, dif_pos hlt]
    dsimp only
    rw [hbytes, hpiece, ← hbytes]
    dsimp only [Piece.width]
    rw [hsize, hrest]
    exact String.ext (by simp)

/-- Bytes that are UTF-8 are read as the text they are of. -/
theorem lossy_toUTF8 (s : String) : lossy s.toUTF8 = s := by
  have hread := lossyFrom_utf8Encode [] s.toList ""
  rw [List.nil_append, String.utf8Encode_toList, String.ofList_toList, String.empty_append] at hread
  exact hread

end Utf8

namespace Form

/-! ### Bytes -/

theorem hexValue?_hexDigit {n : Nat} (h : n < 16) : hexValue? (hexDigit n) = some n := by
  have hdigits : ∀ n : Fin 16, hexValue? (hexDigit n) = some n.val := by decide
  exact hdigits ⟨n, h⟩

/-- What parts pairs, keys and values, or does not stand for itself. -/
def marks : List Char := ['%', '+', '&', '=']

/-- A plain byte is a character that stands for itself. -/
theorem plain_spec {b : UInt8} (h : isPlain b = true) :
    Char.ofNat b.toNat ∉ marks ∧ (Char.ofNat b.toNat).toString.toUTF8 = ⟨#[b]⟩ := by
  have hall : ∀ n : Fin 256, isPlain (UInt8.ofNat n) = true → Char.ofNat (UInt8.ofNat n).toNat ∉ marks ∧
      (Char.ofNat (UInt8.ofNat n).toNat).toString.toUTF8 = ⟨#[UInt8.ofNat n]⟩ := by decide +kernel
  have hb := hall ⟨b.toNat, b.toNat_lt⟩
  rw [UInt8.ofNat_toNat] at hb
  exact hb h

theorem decodeBytes_encodeByte (b : UInt8) (acc : ByteArray) (cs : List Char) :
    decodeBytes acc (encodeByte b ++ cs) = decodeBytes (acc.push b) cs := by
  have hlt := b.toNat_lt
  unfold encodeByte
  split
  next h =>
    rw [beq_iff_eq.1 h]
    rfl
  split
  next h =>
    obtain ⟨hc, hbyte⟩ := plain_spec h
    simp only [marks, List.mem_cons, List.not_mem_nil, or_false, not_or] at hc
    have happend : acc ++ (⟨#[b]⟩ : ByteArray) = acc.push b := ByteArray.ext (by simp)
    rw [List.singleton_append, decodeBytes.eq_4 _ _ _ (fun _ _ _ hpercent => absurd hpercent hc.1) hc.2.1, hbyte,
      happend]
  next =>
    have hbyte : UInt8.ofNat (16 * (b.toNat / 16) + b.toNat % 16) = b := by
      rw [Nat.div_add_mod, UInt8.ofNat_toNat]
    rw [List.cons_append, List.cons_append, List.cons_append, List.nil_append, decodeBytes.eq_2,
      hexValue?_hexDigit (by omega), hexValue?_hexDigit (by omega)]
    dsimp only
    rw [hbyte]

theorem decodeBytes_flatMap (bytes : List UInt8) (acc : ByteArray) :
    decodeBytes acc (bytes.flatMap encodeByte) = ⟨acc.data ++ bytes.toArray⟩ := by
  induction bytes generalizing acc with
  | nil => simp [decodeBytes]
  | cons b bytes ih =>
    rw [List.flatMap_cons, decodeBytes_encodeByte, ih]
    simp

theorem decodeText_encodeText (s : String) : decodeText (encodeText s) = s := by
  have hbytes := decodeBytes_flatMap s.toUTF8.data.toList .empty
  rw [decodeText, encodeText, hbytes]
  simpa using Utf8.lossy_toUTF8 s

/-! ### Pairs -/

theorem notMem_hexDigit {n : Nat} (h : n < 16) : hexDigit n ∉ ['&', '='] := by
  have hdigits : ∀ n : Fin 16, hexDigit n ∉ ['&', '='] := by decide
  exact hdigits ⟨n, h⟩

/-- Nothing that parts pairs, keys or values stands for a byte. -/
theorem notMem_encodeText {c : Char} (hc : c ∈ ['&', '=']) (s : String) : c ∉ encodeText s := by
  intro h
  obtain ⟨b, -, h⟩ := List.mem_flatMap.1 h
  have hlt := b.toNat_lt
  revert hc
  unfold encodeByte at h
  split at h
  · cases List.mem_singleton.1 h
    decide
  split at h
  next hplain =>
    cases List.mem_singleton.1 h
    exact fun hc => (plain_spec hplain).1 (List.mem_cons_of_mem _ (List.mem_cons_of_mem _ hc))
  next =>
    simp only [List.mem_cons, List.not_mem_nil, or_false] at h
    obtain rfl | rfl | rfl := h
    · decide
    · exact notMem_hexDigit (by omega)
    · exact notMem_hexDigit (by omega)

/-- The part of the line for one pair. -/
def pairChars (p : String × String) : List Char := encodeText p.1 ++ '=' :: encodeText p.2

theorem notMem_pairChars (p : String × String) : '&' ∉ pairChars p := by
  have hamp : '&' ∈ ['&', '='] := List.mem_cons_self
  simp [pairChars, notMem_encodeText hamp]

theorem pairChars_ne_nil (p : String × String) : pairChars p ≠ [] := List.append_ne_nil_of_right_ne_nil _ nofun

theorem cutAt_pairChars (p : String × String) :
    Text.cutAt (· == '=') (pairChars p) = some (encodeText p.1, encodeText p.2) :=
  Text.cutAt_append (notMem_encodeText (List.mem_cons_of_mem _ List.mem_cons_self) p.1) _

theorem splitOn_encode {pairs : List (String × String)} (h : pairs ≠ []) :
    Text.splitOn '&' (encode pairs).toList = pairs.map pairChars := by
  rw [encode, String.toList_ofList, Text.splitOn_eq]
  refine List.splitOn_intercalate '&' (List.forall_mem_map.2 fun p _ => notMem_pairChars p) ?_
  rwa [ne_eq, List.map_eq_nil_iff]

theorem decode_encode (pairs : List (String × String)) : decode (encode pairs).toList = pairs := by
  by_cases h : pairs = []
  · rw [h]
    rfl
  · have hkept : (pairs.map pairChars).filter (!·.isEmpty) = pairs.map pairChars := by
      refine List.filter_eq_self.2 (List.forall_mem_map.2 fun p _ => ?_)
      simp [pairChars_ne_nil]
    rw [decode, splitOn_encode h, hkept, List.map_map]
    refine (List.map_congr_left fun p _ => ?_).trans (List.map_id pairs)
    simp only [Function.comp, cutAt_pairChars, Option.getD_some, decodeText_encodeText]
    rfl

end Form

end ClusterMetrics
