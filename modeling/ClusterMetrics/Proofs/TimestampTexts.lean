import Mathlib
import ClusterMetrics.Proofs.Calendar
import ClusterMetrics.Proofs.Decimal
import ClusterMetrics.Timestamp.Codec

/-! # Timestamps as texts

A timestamp from the year 2 to the year 9999 is read again as it was, whatever its places and also in a leap second, and
so is `zero` (`parse?_format`). A timestamp that was read is one of those (`storable_or_isLate`), unless an offset leads
past the end of the year 9999: the text of such a one is not read (`parse?_format_of_isLate`). -/

namespace ClusterMetrics

/-! ### Instants with a text -/

/-- Instants from the year 2 to the year 9999, of which only those in second 59 may be leap seconds. -/
structure Instant.Storable (i : Instant) : Prop where
  year_ge : 2 ≤ i.date.year
  year_le : i.date.year ≤ 9999
  nanoseconds_lt : i.nanoseconds < 1000000000 ∨ i.seconds % 60 = 59 ∧ i.nanoseconds < 2000000000

/-- `zero` and all storable instants. -/
def Timestamp.Storable : Timestamp → Prop
  | zero => True
  | instant i => i.Storable

namespace Timestamp

open Text (decimalPadded)

/-! ### Parts -/

theorem digits?_append {ds rest : List Char} {count : Nat} (hlength : ds.length = count)
    (h : ∀ c ∈ ds, c.isDigit = true) : digits? count (ds ++ rest) = some (Nat.ofDigitChars 10 ds 0, rest) := by
  have htake : (ds ++ rest).take count = ds := List.take_left' hlength
  have hdrop : (ds ++ rest).drop count = rest := List.drop_left' hlength
  simp only [digits?, htake, hdrop]
  rw [if_pos ⟨hlength, List.all_eq_true.2 h⟩]

theorem digits?_decimalPadded {width n : Nat} (hw : 0 < width) (h : n < 10 ^ width) (rest : List Char) :
    digits? width (decimalPadded width n ++ rest) = some (n, rest) := by
  rw [digits?_append (Text.length_decimalPadded hw h) fun c => Text.isDigit_of_mem_decimalPadded,
    Text.ofDigitChars_decimalPadded]

theorem skip?_cons {p : Char → Bool} {c : Char} (h : p c = true) (cs : List Char) : skip? p (c :: cs) = some cs :=
  if_pos h

theorem fraction?_places {width n : Nat} (hw : 0 < width) (hle : width ≤ 9) (h : n < 10 ^ width) :
    fraction? ('.' :: decimalPadded width n ++ ['Z']) = some (n * 10 ^ (9 - width), ['Z']) := by
  have hdigits : ∀ c ∈ decimalPadded width n, c.isDigit = true := fun c => Text.isDigit_of_mem_decimalPadded
  have hlength := Text.length_decimalPadded hw h
  have htakeWhile : (decimalPadded width n ++ ['Z']).takeWhile Char.isDigit = decimalPadded width n := by
    rw [List.takeWhile_append_of_pos hdigits]
    exact List.append_nil _
  have hdropWhile : (decimalPadded width n ++ ['Z']).dropWhile Char.isDigit = ['Z'] := by
    rw [List.dropWhile_append_of_pos hdigits]
    rfl
  have htake : (decimalPadded width n).take 9 = decimalPadded width n := List.take_of_length_le (by omega)
  have hne : (decimalPadded width n).isEmpty = false := by
    rw [List.isEmpty_eq_false_iff, ← List.length_pos_iff]
    omega
  simp only [fraction?, List.cons_append, htakeWhile, hdropWhile, htake, hne, hlength, Text.ofDigitChars_decimalPadded]
  rfl

theorem fraction?_fractionChars {n : Nat} (h : n < 1000000000) :
    fraction? (fractionChars n ++ ['Z']) = some (n, ['Z']) := by
  unfold fractionChars
  split
  next hzero => rw [hzero]; rfl
  split
  next hmillis =>
    rw [fraction?_places (by decide) (by decide) (by omega)]
    simp only [Option.some.injEq, Prod.mk.injEq, and_true]
    omega
  split
  next hmicros =>
    rw [fraction?_places (by decide) (by decide) (by omega)]
    simp only [Option.some.injEq, Prod.mk.injEq, and_true]
    omega
  next =>
    rw [fraction?_places (by decide) (by decide) (by omega)]
    simp

/-! ### Instants -/

/-- The day, the hour, the minute and the second of an instant come to the instant. -/
theorem instant_of_time {i : Instant} {time : Nat} (htime : time = (i.seconds % 86400).toNat)
    (h : i.nanoseconds < 1000000000 ∨ i.seconds % 60 = 59 ∧ i.nanoseconds < 2000000000) :
    ⟨((i.seconds / 86400 + Calendar.unixEpoch - Calendar.unixEpoch) * 1440 + (time / 3600 : Nat) * 60 +
        (time / 60 % 60 : Nat) - 0) * 60 + (min (time % 60 + i.nanoseconds / 1000000000) 59 : Nat),
      i.nanoseconds % 1000000000 + if time % 60 + i.nanoseconds / 1000000000 = 60 then 1000000000 else 0⟩ = i := by
  obtain ⟨seconds, nanoseconds⟩ := i
  simp only [Instant.mk.injEq] at htime h ⊢
  rcases h with hplain | ⟨hlast, hleap⟩
  · rw [if_neg (by omega)]
    omega
  · by_cases hsmall : nanoseconds < 1000000000
    · rw [if_neg (by omega)]
      omega
    · rw [if_pos (by omega)]
      omega

theorem readInstant?_instantChars {i : Instant} (h : i.Storable) : readInstant? (instantChars i) = some i := by
  obtain ⟨hlow, hhigh, hnanoseconds⟩ := h
  have hvalid : i.date.isValid = true := Calendar.Date.isValid_ofDays _
  have hmonth := Calendar.Date.month_le_of_isValid hvalid
  have hday := Calendar.Date.day_le_of_isValid hvalid
  have hdays : i.date.toDays = i.seconds / 86400 + Calendar.unixEpoch := Calendar.Date.toDays_ofDays _
  have hyear : ((i.date.year.toNat : Nat) : Int) = i.date.year := by omega
  have hfour : ∀ cs, digits? 4 (decimalPadded 4 i.date.year.toNat ++ cs) = some (i.date.year.toNat, cs) :=
    digits?_decimalPadded (by decide) (by omega)
  have htwo : ∀ n, n < 100 → ∀ cs, digits? 2 (decimalPadded 2 n ++ cs) = some (n, cs) := fun n hn =>
    digits?_decimalPadded (by decide) hn
  have hmonths := htwo i.date.month (by omega)
  have hdaysOfMonth := htwo i.date.day (by omega)
  have hhours := htwo ((i.seconds % 86400).toNat / 3600) (by omega)
  have hminutes := htwo ((i.seconds % 86400).toNat / 60 % 60) (by omega)
  have hseconds := htwo ((i.seconds % 86400).toNat % 60 + i.nanoseconds / 1000000000) (by omega)
  have hfraction := fraction?_fractionChars (n := i.nanoseconds % 1000000000) (by omega)
  have hdash : ∀ cs, skip? (· == '-') ('-' :: cs) = some cs := skip?_cons rfl
  have hcolon : ∀ cs, skip? (· == ':') (':' :: cs) = some cs := skip?_cons rfl
  have htime : ∀ cs, skip? (fun c => c == 'T' || c == 't' || c == ' ') ('T' :: cs) = some cs := skip?_cons rfl
  have hoffset : offset? ['Z'] = some (0, []) := rfl
  simp only [readInstant?, instantChars, yearChars, List.append_assoc, List.cons_append]
  rw [if_pos (by omega)]
  -- Part by part: `simp` would go through all that follows a part, and twice for each part before it.
  dsimp only [Option.bind_eq_bind]
  rw [hfour, Option.bind_some, hdash, Option.bind_some, hmonths, Option.bind_some, hdash, Option.bind_some,
    hdaysOfMonth, Option.bind_some, htime, Option.bind_some, hhours, Option.bind_some, hcolon, Option.bind_some,
    hminutes, Option.bind_some, hcolon, Option.bind_some, hseconds, Option.bind_some, hfraction, Option.bind_some,
    hoffset, Option.bind_some]
  simp only [List.isEmpty_nil, true_and, hyear]
  rw [if_pos ⟨hvalid, by omega, by omega, by omega⟩, hdays, instant_of_time rfl hnanoseconds]

theorem parse?_format {t : Timestamp} (h : t.Storable) : parse? t.format = some t := by
  cases t with
  | zero => decide +kernel
  | instant i =>
    have h : i.Storable := h
    have hyear : ¬ i.date.year ≤ 1 := by
      have := h.year_ge
      omega
    have hchars : (instant i).format.toList = instantChars i := String.toList_ofList
    rw [parse?, hchars, readInstant?_instantChars h, Option.map_some, ofInstant, if_neg hyear]

/-! ### Timestamps that were read -/

theorem fraction?_lt {cs rest : List Char} {n : Nat} (h : fraction? cs = some (n, rest)) : n < 1000000000 := by
  unfold fraction? at h
  split at h
  · dsimp only at h
    split at h
    · cases h
    · cases h
      rename_i cs _
      have hdigits : ∀ c ∈ (cs.takeWhile Char.isDigit).take 9, c.isDigit = true := fun c hc =>
        List.mem_takeWhile_imp (List.mem_of_mem_take hc)
      have hlength : ((cs.takeWhile Char.isDigit).take 9).length ≤ 9 := List.length_take_le ..
      have hlt := Text.ofDigitChars_lt hdigits
      calc _ < 10 ^ _ * 10 ^ (9 - _) := Nat.mul_lt_mul_of_pos_right hlt (Nat.pow_pos (by decide))
        _ = 10 ^ 9 := by rw [← Nat.pow_add, Nat.add_sub_cancel' hlength]
  · cases h; decide

theorem nanoseconds_of_readInstant? {cs : List Char} {i : Instant} (h : readInstant? cs = some i) :
    i.nanoseconds < 1000000000 ∨ i.seconds % 60 = 59 ∧ i.nanoseconds < 2000000000 := by
  unfold readInstant? at h
  dsimp only [Option.bind_eq_bind] at h
  obtain ⟨⟨year, _⟩, -, h⟩ := Option.bind_eq_some_iff.1 h
  obtain ⟨_, -, h⟩ := Option.bind_eq_some_iff.1 h
  obtain ⟨⟨month, _⟩, -, h⟩ := Option.bind_eq_some_iff.1 h
  obtain ⟨_, -, h⟩ := Option.bind_eq_some_iff.1 h
  obtain ⟨⟨day, _⟩, -, h⟩ := Option.bind_eq_some_iff.1 h
  obtain ⟨_, -, h⟩ := Option.bind_eq_some_iff.1 h
  obtain ⟨⟨hour, _⟩, -, h⟩ := Option.bind_eq_some_iff.1 h
  obtain ⟨_, -, h⟩ := Option.bind_eq_some_iff.1 h
  obtain ⟨⟨minute, _⟩, -, h⟩ := Option.bind_eq_some_iff.1 h
  obtain ⟨_, -, h⟩ := Option.bind_eq_some_iff.1 h
  obtain ⟨⟨second, _⟩, -, h⟩ := Option.bind_eq_some_iff.1 h
  obtain ⟨⟨fraction, _⟩, hfraction, h⟩ := Option.bind_eq_some_iff.1 h
  obtain ⟨⟨offset, _⟩, -, h⟩ := Option.bind_eq_some_iff.1 h
  have hlt := fraction?_lt hfraction
  dsimp only at h
  split at h
  · cases h
    dsimp only
    split
    next hleap => omega
    next => omega
  · cases h

/-- Instants after the year 9999, which only an offset leads to. -/
def IsLate : Timestamp → Prop
  | zero => False
  | instant i => 9999 < i.date.year

theorem storable_or_isLate {s : String} {t : Timestamp} (h : parse? s = some t) : t.Storable ∨ t.IsLate := by
  obtain ⟨i, hi, rfl⟩ := Option.map_eq_some_iff.1 h
  unfold ofInstant
  split
  next => exact .inl trivial
  next hyear =>
    by_cases hlate : 9999 < i.date.year
    · exact .inr hlate
    · exact .inl ⟨by omega, by omega, nanoseconds_of_readInstant? hi⟩

theorem not_isLate_of_storable {t : Timestamp} (h : t.Storable) : ¬ t.IsLate := by
  cases t with
  | zero => exact id
  | instant i => exact Int.not_lt.2 (Instant.Storable.year_le h)

/-- The sign in front of a year of five digits is not read. -/
theorem parse?_format_of_isLate {t : Timestamp} (h : t.IsLate) : parse? t.format = none := by
  cases t with
  | zero => exact h.elim
  | instant i =>
    have h : 9999 < i.date.year := h
    have hyear : ∃ cs, instantChars i = '+' :: cs := by
      simp only [instantChars, yearChars]
      rw [if_neg (by omega), if_neg (by omega)]
      exact ⟨_, rfl⟩
    obtain ⟨cs, hcs⟩ := hyear
    have hchars : (instant i).format.toList = '+' :: cs := String.toList_ofList.trans hcs
    have hdigits : digits? 4 ('+' :: cs) = none := by
      unfold digits?
      dsimp only
      rw [if_neg]
      rintro ⟨-, hall⟩
      exact Bool.false_ne_true hall
    rw [parse?, hchars, readInstant?, hdigits]
    rfl

end Timestamp

end ClusterMetrics
