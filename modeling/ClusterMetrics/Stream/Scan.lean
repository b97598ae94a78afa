import ClusterMetrics.Json

/-! # Where a frame ends

A frame is an object or an array, so it ends with the bracket that closes the first one. Brackets are
counted outside of strings, and within strings only quotes and what escapes them matter. The scan can
stop after any byte and go on when more bytes have come. -/

namespace ClusterMetrics

/-- The scan of a frame from its first byte on. -/
structure FrameScan where
  /-- How many bytes have been scanned. -/
  position : Nat := 0
  /-- How many brackets are open. -/
  depth : Nat := 0
  inString : Bool := false
  /-- Whether the last byte escapes the next one. -/
  escaped : Bool := false
deriving Repr, DecidableEq

namespace FrameScan

/-- What a byte does to the brackets and strings that are open. -/
inductive Mark where
  | text
  | opening
  | closing
  | quote
  | backslash
deriving Repr, DecidableEq

def markOf (b : UInt8) : Mark :=
  if b = Json.Byte.quote then .quote
  else if b = Json.Byte.backslash then .backslash
  else if b = Json.Byte.openBrace ∨ b = Json.Byte.openBracket then .opening
  else if b = Json.Byte.closeBrace ∨ b = Json.Byte.closeBracket then .closing
  else .text

/-- The scan after one more byte. -/
def step (s : FrameScan) (b : UInt8) : FrameScan :=
  let s := { s with position := s.position + 1 }
  if s.inString then
    if s.escaped then { s with escaped := false }
    else match markOf b with
      | .backslash => { s with escaped := true }
      | .quote => { s with inString := false }
      | _ => s
  else match markOf b with
    | .quote => { s with inString := true }
    | .opening => { s with depth := s.depth + 1 }
    | .closing => { s with depth := s.depth - 1 }
    | _ => s

/-- Whether the byte closes the last open bracket. -/
def closesAt (s : FrameScan) (b : UInt8) : Bool :=
  !s.inString && markOf b == .closing && s.depth ≤ 1

/-- The scan after the bytes up to the first that closes the frame, and whether there is one. -/
def advance (s : FrameScan) : Bytes → FrameScan × Bool
  | [] => (s, false)
  | b :: rest => if s.closesAt b then (s.step b, true) else advance (s.step b) rest

@[simp] theorem position_step (s : FrameScan) (b : UInt8) : (s.step b).position = s.position + 1 := by
  unfold step
  dsimp only
  repeat' split
  all_goals rfl

theorem position_advance_le (s : FrameScan) (bytes : Bytes) :
    (s.advance bytes).1.position ≤ s.position + bytes.length := by
  induction bytes generalizing s with
  | nil => exact Nat.le_refl _
  | cons b rest ih =>
    rw [advance]
    split
    · simp
    · have := ih (s.step b)
      simp only [position_step] at this
      simp only [List.length_cons]
      omega

theorem position_lt_of_closed {s : FrameScan} {bytes : Bytes} (h : (s.advance bytes).2 = true) :
    s.position < (s.advance bytes).1.position := by
  induction bytes generalizing s with
  | nil => simp [advance] at h
  | cons b rest ih =>
    rw [advance] at h ⊢
    split
    · simp
    · rename_i hb
      rw [if_neg hb] at h
      have := ih h
      simp only [position_step] at this
      omega

end FrameScan

end ClusterMetrics
