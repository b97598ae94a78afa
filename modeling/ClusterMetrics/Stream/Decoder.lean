import ClusterMetrics.Frame
import ClusterMetrics.Stream.Error
import ClusterMetrics.Stream.Scan

/-! # Frames from bytes that come in pieces

Frames follow one another with white space between them. Bytes are kept until a frame is complete, each
of them is scanned once, and a frame of more than so many bytes is refused as soon as it is known to be. -/

namespace ClusterMetrics

structure FrameDecoder where
  /-- The most bytes a frame may have. -/
  maxFrame : Nat := 64 * 1024 * 1024
  /-- Bytes received and not yet part of a frame that was handed out. -/
  buffer : Bytes := []
  scan : FrameScan := {}

namespace FrameDecoder

/-- White space between frames: space, tab, line feed, form feed and carriage return. -/
def isSpace (b : UInt8) : Bool := Json.Byte.isBlank b || b == 0x0C

/-- Whether a frame can begin with the byte. -/
def opensFrame (b : UInt8) : Bool := FrameScan.markOf b == .opening

def receive (d : FrameDecoder) (bytes : Bytes) : FrameDecoder := { d with buffer := d.buffer ++ bytes }

/-- The decoder at the beginning of the next frame, if it is between two, and whether the buffer holds
some of that frame. -/
def begin (d : FrameDecoder) : Except StreamError (FrameDecoder × Bool) :=
  if d.scan.position = 0 then
    let d := { d with buffer := d.buffer.dropWhile isSpace }
    match d.buffer with
    | [] => .ok (d, false)
    | b :: _ => if opensFrame b then .ok (d, true) else .error (.notAFrame b)
  else .ok (d, true)

/-- Scans what was received, and takes the frame out of the buffer if it is complete. -/
def scanFrame (d : FrameDecoder) : Except StreamError (FrameDecoder × Option Frame) :=
  let (scan, closed) := d.scan.advance (d.buffer.drop d.scan.position)
  if d.maxFrame < scan.position then .error (.frameTooLarge d.maxFrame)
  else if closed then
    match Frame.codec.decode? (d.buffer.take scan.position) with
    | some f => .ok ({ d with buffer := d.buffer.drop scan.position, scan := {} }, some f)
    | none => .error .malformed
  else .ok ({ d with scan }, none)

/-- The next frame, if the buffer holds all of it. -/
def next? (d : FrameDecoder) : Except StreamError (FrameDecoder × Option Frame) := do
  let (d, hasBegun) ← d.begin
  if hasBegun then d.scanFrame else .ok (d, none)

/-! ### What a look comes to -/

variable {d d' : FrameDecoder} {f? : Option Frame}

/-- What was scanned is a whole frame, which then is taken out, or the beginning of one. -/
theorem scanFrame_eq_ok (h : d.scanFrame = .ok (d', f?)) :
    let s := d.scan.advance (d.buffer.drop d.scan.position)
    (s.2 = true ∧ d' = { d with buffer := d.buffer.drop s.1.position, scan := {} } ∧
      ∃ f, f? = some f ∧ Frame.codec.decode? (d.buffer.take s.1.position) = some f) ∨
    (s.2 = false ∧ d' = { d with scan := s.1 } ∧ f? = none) := by
  unfold scanFrame at h
  dsimp only at h ⊢
  split at h
  · cases h
  split at h
  · rename_i hclosed
    split at h <;> cases h
    exact .inl ⟨hclosed, rfl, _, rfl, ‹_›⟩
  · rename_i hopen
    cases h
    exact .inr ⟨Bool.eq_false_iff.2 hopen, rfl, rfl⟩

/-- There is nothing to scan, or what there is comes to this. -/
theorem next?_eq_ok (h : d.next? = .ok (d', f?)) :
    (d.begin = .ok (d', false) ∧ f? = none) ∨ ∃ begun, d.begin = .ok (begun, true) ∧ begun.scanFrame = .ok (d', f?) := by
  unfold next? at h
  cases hb : d.begin with
  | error e => rw [hb] at h; cases h
  | ok begun =>
    obtain ⟨begun, hasBegun⟩ := begun
    rw [hb] at h
    cases hasBegun with
    | true => exact .inr ⟨begun, rfl, h⟩
    | false => cases h; exact .inl ⟨rfl, rfl⟩

end FrameDecoder

end ClusterMetrics
