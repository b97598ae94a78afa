import ClusterMetrics.Stream.Decoder

/-! # Streams of frames

A stream reads a body and hands out its frames one at a time, up to the first that is final. It ends in
one of three phases and stays in it: done after the final frame, failed after an error, cancelled after
the token was raised. -/

namespace ClusterMetrics

/-- What happens when a stream waits for more of its body. -/
inductive ReadEvent where
  | bytes (bs : Bytes)
  /-- Reading fails. -/
  | failure (text : String)
  /-- Nothing has come yet. -/
  | pending
  /-- Nothing comes, and the token is raised meanwhile. -/
  | interrupt
deriving Repr, DecidableEq

/-- The events of reading a body; after the last of them it has ended. -/
abbrev Body := List ReadEvent

inductive StreamPhase where
  | idle | streaming | done | failed | cancelled
deriving Repr, DecidableEq

namespace StreamPhase

def name : StreamPhase → String
  | idle => "Idle"
  | streaming => "Streaming"
  | done => "Done"
  | failed => "Failed"
  | cancelled => "Cancelled"

def isTerminal : StreamPhase → Bool
  | done | failed | cancelled => true
  | idle | streaming => false

end StreamPhase

namespace FrameDecoder

/-- The next frame, and what is left when it is complete; reads no more of the body than it needs. -/
def nextFrom (d : FrameDecoder) : Body → Except StreamError (Frame × FrameDecoder × Body)
  | [] => do
    match ← d.next? with
    | (d, some f) => .ok (f, d, [])
    | (_, none) => .error .unexpectedEnd
  | event :: body => do
    match ← d.next? with
    | (d, some f) => .ok (f, d, event :: body)
    | (d, none) =>
      match event with
      | .bytes bs => (d.receive bs).nextFrom body
      | .pending => d.nextFrom body
      | .failure text => .error (.io text)
      | .interrupt => .error .cancelled

/-- A frame is found in what is buffered, or after more of the body was read. -/
theorem nextFrom_induction {motive : FrameDecoder → Body → Prop} {f : Frame} {d' : FrameDecoder} {body' : Body}
    (found : ∀ d, d.next? = .ok (d', some f) → motive d body')
    (read : ∀ d d₁ bs body, d.next? = .ok (d₁, none) → motive (d₁.receive bs) body → motive d (.bytes bs :: body))
    (resume : ∀ d d₁ body, d.next? = .ok (d₁, none) → motive d₁ body → motive d (.pending :: body))
    {d : FrameDecoder} {body : Body} (h : d.nextFrom body = .ok (f, d', body')) : motive d body := by
  induction body generalizing d with
  | nil =>
    unfold nextFrom at h
    rcases hn : d.next? with e | ⟨d₁, _ | g⟩ <;> rw [hn] at h <;> cases h
    exact found d hn
  | cons event body ih =>
    unfold nextFrom at h
    rcases hn : d.next? with e | ⟨d₁, _ | g⟩ <;> rw [hn] at h
    · cases h
    · cases event with
      | bytes bs => exact read d d₁ bs body hn (ih h)
      | pending => exact resume d d₁ body hn (ih h)
      | failure text => cases h
      | interrupt => cases h
    · cases h
      exact found d hn

end FrameDecoder

structure Stream where
  phase : StreamPhase := .idle
  body : Body
  decoder : FrameDecoder := {}
  /-- How many frames were handed out. -/
  frames : Nat := 0

namespace Stream

/-- The stream in a terminal phase; what it had buffered is dropped. -/
def finish (s : Stream) (phase : StreamPhase) : Stream :=
  { s with phase, body := [], decoder := { maxFrame := s.decoder.maxFrame } }

/-- The phase that an error ends a stream in. -/
def phaseAfter (e : StreamError) : StreamPhase := if e.isCancelled then .cancelled else .failed

/-- The stream after its next frame, and that frame; none in a terminal phase. A token that has been
raised wins over a frame that is ready. -/
def next (s : Stream) (raised : Bool) : Except StreamError (Option Frame) × Stream :=
  if s.phase.isTerminal then (.ok none, s)
  else
    let read := if raised then .error .cancelled else s.decoder.nextFrom s.body
    match read with
    | .ok (f, decoder, body) =>
      let s := { s with phase := .streaming, decoder, body, frames := s.frames + 1 }
      (.ok (some f), if f.isFinal then s.finish .done else s)
    | .error e => (.error e, s.finish (phaseAfter e))

end Stream

end ClusterMetrics
