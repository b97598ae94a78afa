import ClusterMetrics.Stream.Scan

/-! # Brackets outside of strings

The depth of a text is how many more brackets it opens than it closes, its string literals left out. A
frame ends with the shortest prefix of depth zero. Main statements: a scan that begins with an opening
bracket closes at the end of that prefix (`closedLength?_of_closed`), and while it has not closed, no
prefix of what it has seen has depth zero (`staysOpen_of_not_closed`). -/

namespace ClusterMetrics

namespace Brackets
open Json

mutual

/-- The bytes of a text that stand outside of its string literals, quotes left out. -/
def outside : Bytes → Bytes
  | [] => []
  | b :: rest => if b = Byte.quote then afterQuote rest else b :: outside rest

/-- The same of a text that begins within a string literal. -/
def afterQuote : Bytes → Bytes
  | [] => []
  | b :: rest =>
    if b = Byte.quote then outside rest
    else if b = Byte.backslash then afterBackslash rest
    else afterQuote rest

/-- The same of a text that begins within a string literal with a byte that is escaped. -/
def afterBackslash : Bytes → Bytes
  | [] => []
  | _ :: rest => afterQuote rest

end

def isOpening (b : UInt8) : Bool := b == Byte.openBrace || b == Byte.openBracket

def isClosing (b : UInt8) : Bool := b == Byte.closeBrace || b == Byte.closeBracket

/-- How many more brackets are opened than closed. -/
def balance (bytes : Bytes) : Int := bytes.countP isOpening - bytes.countP isClosing

def depth (text : Bytes) : Int := balance (outside text)

/-- The length of the shortest prefix of depth zero, the empty one apart. -/
def closedLength? (text : Bytes) : Option Nat :=
  (List.range' 1 text.length).find? fun n => depth (text.take n) == 0

/-- No prefix has depth zero, the empty one apart. -/
def StaysOpen (text : Bytes) : Prop := ∀ n, 0 < n → n ≤ text.length → depth (text.take n) ≠ 0

theorem outside_nil : outside [] = [] := by simp only [outside]

theorem afterQuote_nil : afterQuote [] = [] := by simp only [afterQuote]

theorem afterBackslash_nil : afterBackslash [] = [] := by simp only [afterBackslash]

theorem balance_append (a b : Bytes) : balance (a ++ b) = balance a + balance b := by
  simp only [balance, List.countP_append]; omega

theorem closedLength?_eq_some {text : Bytes} {n : Nat} (h0 : 0 < n) (hn : n ≤ text.length)
    (hd : depth (text.take n) = 0) (hmin : ∀ m, 0 < m → m < n → depth (text.take m) ≠ 0) :
    closedLength? text = some n := by
  refine List.find?_range'_eq_some.2 ⟨beq_iff_eq.2 hd, List.mem_range'_1.2 ⟨h0, by omega⟩, ?_⟩
  intro m hm hmn
  simpa using hmin m hm hmn

theorem closedLength?_eq_none {text : Bytes} (h : StaysOpen text) : closedLength? text = none := by
  refine List.find?_range'_eq_none.2 fun n h0 hn => ?_
  simpa using h n h0 (by omega)

theorem closedLength?_le {text : Bytes} {n : Nat} (h : closedLength? text = some n) : n ≤ text.length := by
  obtain ⟨-, hmem, -⟩ := List.find?_range'_eq_some.1 h
  have := (List.mem_range'_1.1 hmem).2
  omega

theorem closedLength?_append {text : Bytes} {n : Nat} (h : closedLength? text = some n) (more : Bytes) :
    closedLength? (text ++ more) = some n := by
  have hle := closedLength?_le h
  obtain ⟨hd, hmem, hmin⟩ := List.find?_range'_eq_some.1 h
  obtain ⟨h0, -⟩ := List.mem_range'_1.1 hmem
  have htake : ∀ m, m ≤ text.length → (text ++ more).take m = text.take m :=
    fun m hm => List.take_append_of_le_length hm
  refine closedLength?_eq_some h0 (by rw [List.length_append]; omega) ?_ fun m hm hmn => ?_
  · rw [htake n (by omega)]; exact beq_iff_eq.1 hd
  · rw [htake m (by omega)]; simpa using hmin m hm hmn

theorem StaysOpen.concat {text : Bytes} {b : UInt8} (h : StaysOpen text) (hd : depth (text ++ [b]) ≠ 0) :
    StaysOpen (text ++ [b]) := by
  intro n h0 hn
  by_cases hle : n ≤ text.length
  · rw [List.take_append_of_le_length hle]; exact h n h0 hle
  · rw [List.take_of_length_le (by simp only [List.length_append, List.length_singleton]; omega)]
    exact hd

theorem StaysOpen.lt_of_closedLength? {text more : Bytes} {n : Nat} (h : StaysOpen text)
    (hn : closedLength? (text ++ more) = some n) : text.length < n := by
  obtain ⟨hd, hmem, -⟩ := List.find?_range'_eq_some.1 hn
  have h0 := (List.mem_range'_1.1 hmem).1
  refine Nat.lt_of_not_le fun hle => h n h0 hle ?_
  rw [List.take_append_of_le_length hle] at hd
  exact beq_iff_eq.1 hd

end Brackets

namespace FrameScan
open Brackets

/-- What a byte with the mark adds to the depth. -/
def Mark.weight : Mark → Int
  | opening => 1
  | closing => -1
  | text | quote | backslash => 0

theorem balance_singleton (b : UInt8) : balance [b] = (markOf b).weight := by
  by_cases hq : b = Json.Byte.quote
  · subst b; decide
  by_cases hs : b = Json.Byte.backslash
  · subst b; decide
  by_cases ho : b = Json.Byte.openBrace ∨ b = Json.Byte.openBracket
  · rcases ho with rfl | rfl <;> decide
  by_cases hc : b = Json.Byte.closeBrace ∨ b = Json.Byte.closeBracket
  · rcases hc with rfl | rfl <;> decide
  · rw [not_or] at ho hc
    simp [balance, isOpening, isClosing, markOf, Mark.weight, hq, hs, ho, hc]

theorem markOf_eq_quote {b : UInt8} : markOf b = .quote ↔ b = Json.Byte.quote := by
  unfold markOf; grind

theorem markOf_eq_backslash {b : UInt8} : markOf b = .backslash ↔ b = Json.Byte.backslash := by
  unfold markOf; grind

/-! ### A scan against the text it has seen -/

/-- The bytes outside of string literals in what comes after a scan. -/
def outsideOf (s : FrameScan) (rest : Bytes) : Bytes :=
  if s.inString then if s.escaped then afterBackslash rest else afterQuote rest else outside rest

/-- What a byte adds to the bytes outside of string literals. -/
def bare (s : FrameScan) (b : UInt8) : Bytes := if s.inString || markOf b == .quote then [] else [b]

/-- The scan has seen `text`. -/
structure Seen (s : FrameScan) (text : Bytes) : Prop where
  position_eq : s.position = text.length
  depth_eq : Brackets.depth text = s.depth
  inString_of_escaped : s.escaped = true → s.inString = true
  outside_append : ∀ rest, outside (text ++ rest) = outside text ++ s.outsideOf rest

/-- A byte stands within the frame: brackets are open, or it opens the first one. -/
def Holds (s : FrameScan) (b : UInt8) : Prop := 0 < s.depth ∨ s.inString = false ∧ markOf b = .opening

variable {s : FrameScan} {text : Bytes} {b : UInt8}

theorem inString_step_of_escaped (h : s.escaped = true → s.inString = true) :
    (s.step b).escaped = true → (s.step b).inString = true := by
  unfold step
  dsimp only
  repeat' split
  all_goals simp_all

theorem outsideOf_nil : s.outsideOf [] = [] := by
  unfold outsideOf
  rw [afterBackslash_nil, afterQuote_nil, outside_nil]
  simp only [ite_self]

theorem outsideOf_cons (h : s.escaped = true → s.inString = true) (rest : Bytes) :
    s.outsideOf (b :: rest) = s.bare b ++ (s.step b).outsideOf rest := by
  have hq := markOf_eq_quote (b := b)
  have hb := markOf_eq_backslash (b := b)
  unfold outsideOf bare step
  cases hs : s.inString with
  | false =>
    have he : s.escaped = false := by simpa [hs] using h
    cases hm : markOf b <;> simp [outside, hm, ← hq, he]
  | true =>
    cases he : s.escaped with
    | false => cases hm : markOf b <;> simp [afterQuote, hm, ← hq, ← hb]
    | true => simp [afterBackslash]

/-- A byte changes the depth by its weight, unless it closes a bracket that was never opened. -/
theorem depth_step (h : s.Holds b) :
    ((s.step b).depth : Int) = s.depth + balance (s.bare b) := by
  have hw := balance_singleton b
  unfold Holds at h
  unfold bare step
  cases hs : s.inString with
  | false =>
    cases hm : markOf b <;> simp_all [Mark.weight, balance]
    omega
  | true => cases he : s.escaped <;> cases hm : markOf b <;> simp [balance]

theorem Seen.step (h : s.Seen text) (hb : s.Holds b) :
    (s.step b).Seen (text ++ [b]) := by
  have hout : outside (text ++ [b]) = outside text ++ s.bare b := by
    rw [h.outside_append, outsideOf_cons h.inString_of_escaped, outsideOf_nil, List.append_nil]
  refine ⟨?_, ?_, inString_step_of_escaped h.inString_of_escaped, fun rest => ?_⟩
  · rw [position_step, h.position_eq, List.length_append, List.length_singleton]
  · rw [depth_step hb, ← h.depth_eq, Brackets.depth, hout, balance_append, Brackets.depth]
  · rw [List.append_assoc, List.singleton_append, h.outside_append,
      outsideOf_cons h.inString_of_escaped, hout, List.append_assoc]

theorem depth_step_of_closesAt (h : s.closesAt b = true) : (s.step b).depth = 0 := by
  simp only [closesAt, Bool.and_eq_true, Bool.not_eq_true', beq_iff_eq, decide_eq_true_eq] at h
  obtain ⟨⟨hs, hm⟩, hd⟩ := h
  simp only [step, hs, hm, Bool.false_eq_true, if_false]
  omega

theorem depth_step_pos (h : s.Holds b) (hc : s.closesAt b = false) :
    0 < (s.step b).depth := by
  unfold Holds at h
  unfold closesAt at hc
  unfold step
  cases hs : s.inString with
  | false =>
    cases hm : markOf b with
    | closing =>
      have hd : s.depth > 1 := by simpa [hs, hm] using hc
      simp only [Bool.false_eq_true, if_false]
      omega
    | text | quote | backslash | opening => simp_all
  | true => cases he : s.escaped <;> cases hm : markOf b <;> simp_all

/-- The scan has seen `text`, whose frame is still open. -/
structure Within (s : FrameScan) (text : Bytes) : Prop where
  seen : s.Seen text
  depth_pos : 0 < s.depth
  staysOpen : StaysOpen text

namespace Within

theorem of_seen (h : s.Seen text) (hopen : StaysOpen text) (hb : s.Holds b) (hc : s.closesAt b = false) :
    (s.step b).Within (text ++ [b]) := by
  have hpos := depth_step_pos hb hc
  refine ⟨h.step hb, hpos, hopen.concat ?_⟩
  rw [(h.step hb).depth_eq]
  omega

theorem step (h : s.Within text) (hc : s.closesAt b = false) : (s.step b).Within (text ++ [b]) :=
  of_seen h.seen h.staysOpen (.inl h.depth_pos) hc

/-- The byte that closes the frame is the last of the shortest prefix of depth zero. -/
theorem closedLength?_of_closesAt (h : s.Within text) (hc : s.closesAt b = true) (more : Bytes) :
    closedLength? (text ++ b :: more) = some (s.step b).position := by
  have hseen : (s.step b).Seen (text ++ [b]) := h.seen.step (.inl h.depth_pos)
  rw [hseen.position_eq, List.append_cons]
  refine closedLength?_eq_some (by simp) (by simp) ?_ fun m h0 hm => ?_
  · rw [List.take_left' rfl, hseen.depth_eq, depth_step_of_closesAt hc]; rfl
  · rw [List.length_append, List.length_singleton] at hm
    rw [List.append_assoc, List.take_append_of_le_length (by omega)]
    exact h.staysOpen m h0 (by omega)

/-- A scan that closes does so at the end of the shortest prefix of depth zero. -/
theorem closedLength?_of_closed {rest : Bytes} (h : s.Within text) (hclosed : (s.advance rest).2 = true)
    (more : Bytes) : closedLength? (text ++ rest ++ more) = some (s.advance rest).1.position := by
  induction rest generalizing s text with
  | nil => cases hclosed
  | cons b rest ih =>
    rw [advance] at hclosed ⊢
    split at hclosed
    next hc => rw [if_pos hc, List.append_assoc, List.cons_append, h.closedLength?_of_closesAt hc]
    next hc => rw [if_neg hc, List.append_cons, ih (h.step (Bool.eq_false_iff.2 hc)) hclosed]

/-- A scan that does not close is still within the frame. -/
theorem of_not_closed {rest : Bytes} (h : s.Within text) (hclosed : (s.advance rest).2 = false) :
    (s.advance rest).1.Within (text ++ rest) := by
  induction rest generalizing s text with
  | nil => rwa [List.append_nil]
  | cons b rest ih =>
    rw [advance] at hclosed ⊢
    split at hclosed
    next => cases hclosed
    next hc =>
      rw [if_neg hc, List.append_cons]
      exact ih (h.step (Bool.eq_false_iff.2 hc)) hclosed

end Within

/-! ### A scan from the first byte on -/

theorem seen_nil : ({} : FrameScan).Seen [] :=
  ⟨rfl, by rw [Brackets.depth, outside_nil]; rfl, nofun, fun rest => by
    rw [outside_nil, List.nil_append, List.nil_append]; rfl⟩

section
variable {rest : Bytes} (hb : markOf b = .opening)
include hb

theorem holds_start : ({} : FrameScan).Holds b := .inr ⟨rfl, hb⟩

theorem closesAt_start : ({} : FrameScan).closesAt b = false := by simp [closesAt, hb]

theorem advance_start : ({} : FrameScan).advance (b :: rest) = (({} : FrameScan).step b).advance rest := by
  rw [advance, closesAt_start hb]; rfl

/-- The byte that opens a frame is within it. -/
theorem within_start : (({} : FrameScan).step b).Within [b] :=
  .of_seen seen_nil (fun n h0 hn => absurd h0 (by simpa using hn)) (holds_start hb) (closesAt_start hb)

theorem closedLength?_of_closed (h : (({} : FrameScan).advance (b :: rest)).2 = true) (more : Bytes) :
    closedLength? (b :: rest ++ more) = some (({} : FrameScan).advance (b :: rest)).1.position := by
  rw [advance_start hb] at h ⊢
  exact (within_start hb).closedLength?_of_closed h more

theorem within_of_not_closed (h : (({} : FrameScan).advance (b :: rest)).2 = false) :
    (({} : FrameScan).advance (b :: rest)).1.Within (b :: rest) := by
  rw [advance_start hb] at h ⊢
  exact (within_start hb).of_not_closed h

theorem staysOpen_of_not_closed (h : (({} : FrameScan).advance (b :: rest)).2 = false) :
    (({} : FrameScan).advance (b :: rest)).1.position = (b :: rest).length ∧ StaysOpen (b :: rest) :=
  ⟨(within_of_not_closed hb h).seen.position_eq, (within_of_not_closed hb h).staysOpen⟩

end

end FrameScan

end ClusterMetrics
