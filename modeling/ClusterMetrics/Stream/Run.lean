import ClusterMetrics.Stream

/-! # Running a stream to its end

A run hands every frame to its receiver until the stream has ended. What is still unread becomes less
with every frame, so there is an end. -/

namespace ClusterMetrics

/-! ### What is still unread -/

/-- A bound on what the events of a body have to give. -/
def Body.weight : Body → Nat
  | [] => 0
  | .bytes bs :: body => bs.length + 1 + weight body
  | _ :: body => 1 + weight body

namespace FrameDecoder
variable {d d' : FrameDecoder}

theorem length_begin {hasBegun : Bool} (h : d.begin = .ok (d', hasBegun)) :
    d'.buffer.length ≤ d.buffer.length := by
  have hdrop := (List.dropWhile_suffix (l := d.buffer) isSpace).length_le
  unfold begin at h
  split at h
  · dsimp only at h
    split at h
    · cases h; exact hdrop
    · split at h <;> cases h
      exact hdrop
  · cases h; exact Nat.le_refl _

theorem length_scanFrame {f? : Option Frame} (h : d.scanFrame = .ok (d', f?)) :
    d'.buffer.length ≤ d.buffer.length ∧ (f?.isSome = true → d'.buffer.length < d.buffer.length) := by
  rcases scanFrame_eq_ok h with ⟨hclosed, rfl, -⟩ | ⟨-, rfl, rfl⟩
  · have hlt := FrameScan.position_lt_of_closed hclosed
    have hle := FrameScan.position_advance_le d.scan (d.buffer.drop d.scan.position)
    simp only [List.length_drop] at hle ⊢
    omega
  · exact ⟨Nat.le_refl _, nofun⟩

theorem length_next? {f? : Option Frame} (h : d.next? = .ok (d', f?)) :
    d'.buffer.length ≤ d.buffer.length ∧ (f?.isSome = true → d'.buffer.length < d.buffer.length) := by
  rcases next?_eq_ok h with ⟨hb, rfl⟩ | ⟨begun, hb, hscan⟩
  · exact ⟨length_begin hb, nofun⟩
  · have hle := length_begin hb
    have hlen := length_scanFrame hscan
    exact ⟨Nat.le_trans hlen.1 hle, fun hf => Nat.lt_of_lt_of_le (hlen.2 hf) hle⟩

theorem weight_nextFrom {f : Frame} {body body' : Body} (h : d.nextFrom body = .ok (f, d', body')) :
    d'.buffer.length + body'.weight < d.buffer.length + body.weight := by
  refine nextFrom_induction
    (motive := fun d body => d'.buffer.length + body'.weight < d.buffer.length + body.weight) ?_ ?_ ?_ h
  · intro d hn
    have := (length_next? hn).2 rfl
    omega
  · intro d d₁ bs body hn ih
    have := (length_next? hn).1
    simp only [receive, List.length_append] at ih
    simp only [Body.weight]
    omega
  · intro d d₁ body hn ih
    have := (length_next? hn).1
    simp only [Body.weight]
    omega

end FrameDecoder

namespace Stream

def unread (s : Stream) : Nat := s.decoder.buffer.length + s.body.weight

theorem unread_next {s s' : Stream} {raised : Bool} {f : Frame} (h : s.next raised = (.ok (some f), s')) :
    s'.unread < s.unread := by
  unfold next at h
  split at h
  · cases h
  cases raised with
  | true => cases h
  | false =>
    dsimp only at h
    simp only [Bool.false_eq_true, if_false] at h
    cases hr : s.decoder.nextFrom s.body with
    | error e => rw [hr] at h; cases h
    | ok read =>
      rw [hr] at h
      obtain ⟨g, decoder, body⟩ := read
      have hlt := FrameDecoder.weight_nextFrom hr
      simp only [Prod.mk.injEq, Except.ok.injEq, Option.some.injEq] at h
      obtain ⟨rfl, rfl⟩ := h
      split
      · simp only [finish, unread, List.length_nil, Body.weight]
        omega
      · exact hlt

/-! ### Runs -/

/-- The frames that a run has handed out, and the count of them or the error it ended with. -/
structure Outcome where
  delivered : List Frame
  result : Except StreamError Nat

/-- Runs the stream to its end. The receiver of the frames raises the token on getting its `n`-th frame if
`raises n`; it has got `received` of them. -/
def runFrom (s : Stream) (raised : Bool) (raises : Nat → Bool) (received : Nat) : Outcome :=
  match h : s.next raised with
  | (.ok none, s) => ⟨[], .ok s.frames⟩
  | (.error e, _) => ⟨[], .error e⟩
  | (.ok (some f), s') =>
    have := unread_next h
    let rest := s'.runFrom (raised || raises (received + 1)) raises (received + 1)
    { rest with delivered := f :: rest.delivered }
termination_by s.unread

def run (s : Stream) (raised : Bool) (raises : Nat → Bool) : Outcome := s.runFrom raised raises 0

/-- Runs the stream without ever raising the token. -/
def runAll (s : Stream) : Outcome := s.run false fun _ => false

end Stream

end ClusterMetrics
