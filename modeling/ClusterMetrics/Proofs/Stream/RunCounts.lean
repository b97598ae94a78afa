import ClusterMetrics.Proofs.Stream.Cancellation
import ClusterMetrics.Proofs.Stream.Lifecycle

/-! # What the count of a run says

A stream can be asked for some frames one by one and then be run to its end. The count that a run ends with is
that of the stream, so it takes in what was handed out before the run. Main statement: of the runs that succeed,
just those of a stream that was not asked before say how many frames their receiver got
(`StreamSession.accounts_iff`). A stream that has ended already runs with success in any case and hands out
nothing. -/

namespace ClusterMetrics

namespace Stream

/-- The receiver got as many frames as the count says, and the last of them is final. -/
structure Outcome.Accounts (o : Outcome) (count : Nat) : Prop where
  length_eq : o.delivered.length = count
  endsFinal : o.endsFinal = true

namespace Outcome
variable {o : Outcome} {f : Frame}

theorem ne_nil_of_endsFinal (h : o.endsFinal = true) : o.delivered ≠ [] := by
  intro hnil
  rw [endsFinal, hnil] at h
  cases h

theorem result_eq_ok {n : Nat} (h : o.result.toOption = some n) : o.result = .ok n := by
  cases hresult : o.result with
  | ok m =>
    rw [hresult] at h
    exact congrArg Except.ok (Option.some.inj h)
  | error e => rw [hresult] at h; cases h

theorem Accounts.pos {count : Nat} (h : o.Accounts count) : 0 < count :=
  h.length_eq ▸ List.length_pos_iff.2 (ne_nil_of_endsFinal h.endsFinal)

theorem endsFinal_cons_of_endsFinal (h : o.endsFinal = true) : endsFinal ⟨f :: o.delivered, o.result⟩ = true := by
  rw [endsFinal_cons (ne_nil_of_endsFinal h), h]

end Outcome

/-- A run that succeeds counts all frames of its stream, and ends with a final one unless the stream had ended. -/
theorem runFrom_of_ok {s : Stream} {raised : Bool} {raises : Nat → Bool} {received n : Nat}
    (h : (s.runFrom raised raises received).result = .ok n) :
    n = s.frames + (s.runFrom raised raises received).delivered.length ∧
    (s.phase.isTerminal = false → (s.runFrom raised raises received).endsFinal = true) := by
  induction hu : s.unread using Nat.strongRecOn generalizing s raised received with
  | ind u ih =>
    subst hu
    rcases s.next_cases raised with ⟨ht, -⟩ | ⟨-, -, hn⟩ | ⟨-, -, e, -, hn⟩ | ⟨-, -, f, decoder, body, -, hn⟩
    · rw [runFrom_of_isTerminal ht] at h ⊢
      cases h
      refine ⟨rfl, fun hf => ?_⟩
      rw [ht] at hf; cases hf
    · rw [runFrom_of_error hn] at h; cases h
    · rw [runFrom_of_error hn] at h; cases h
    · have hframes := s.frames_after f decoder body
      have hterminal := s.isTerminal_after f decoder body
      rw [runFrom_of_some hn] at h ⊢
      obtain ⟨hcount, hends⟩ := ih _ (unread_next hn) h rfl
      constructor
      · simp only [hcount, hframes, List.length_cons]
        omega
      · intro _
        -- If this frame is final, the run is over with it.
        cases hf : f.isFinal with
        | true =>
          rw [hf] at hterminal
          rw [runFrom_of_isTerminal hterminal]
          exact (Outcome.endsFinal_singleton ..).trans hf
        | false =>
          rw [hf] at hterminal
          exact Outcome.endsFinal_cons_of_endsFinal (hends hterminal)

end Stream

namespace StreamSession
variable {s : StreamSession}

/-- What a run of the stream comes to after the calls of the session. -/
def run (s : StreamSession) (raises : Nat → Bool) : Stream.Outcome := s.stream.run s.raised raises

namespace Lifecycle
variable {raises : Nat → Bool} {n : Nat} (h : s.Lifecycle)
include h

/-- Until the stream has ended only frames were answered. -/
theorem frames_eq_nil_iff (ht : s.stream.phase.isTerminal = false) : s.frames = [] ↔ s.answers = [] := by
  rw [h.answers_eq ht, List.map_eq_nil_iff]

/-- A run of a stream that has ended hands out nothing. -/
theorem run_of_isTerminal (ht : s.stream.phase.isTerminal = true) : s.run raises = ⟨[], .ok s.frames.length⟩ := by
  rw [← h.count]
  exact Stream.runFrom_of_isTerminal ht

theorem run_of_ok (hn : (s.run raises).result = .ok n) : n = s.frames.length + (s.run raises).delivered.length ∧
    (s.stream.phase.isTerminal = false → (s.run raises).endsFinal = true) := by
  rw [← h.count]
  exact Stream.runFrom_of_ok hn

theorem accounts_run_iff (hn : (s.run raises).result = .ok n) : (s.run raises).Accounts n ↔ s.answers = [] := by
  obtain ⟨hcount, hends⟩ := h.run_of_ok hn
  cases ht : s.stream.phase.isTerminal with
  | true =>
    -- A stream that has ended was asked, and its run ends with no final frame.
    constructor
    · intro haccounts
      have hne := Stream.Outcome.ne_nil_of_endsFinal haccounts.endsFinal
      rw [h.run_of_isTerminal ht] at hne
      exact absurd rfl hne
    · intro hnil
      rw [h.idle_iff.2 hnil] at ht
      cases ht
  | false =>
    rw [← h.frames_eq_nil_iff ht, ← List.length_eq_zero_iff]
    constructor
    · intro haccounts
      have hlength := haccounts.length_eq
      omega
    · intro hzero
      rw [hzero, Nat.zero_add] at hcount
      exact ⟨hcount.symm, hends ht⟩

end Lifecycle

theorem answers_eq_nil_iff (maxFrame : Nat) (body : Body) (cs : List StreamCall) :
    ((start maxFrame body).calls cs).answers = [] ↔ .next ∉ cs := by
  rw [← List.length_eq_zero_iff, length_answers, ← List.count_eq_zero]
  exact Nat.zero_add _ ▸ Iff.rfl

/-- After any calls on a new stream, with the token raised or not: once the stream has ended, a run of it succeeds,
hands out nothing and counts the frames that were handed out before. Until then a run that succeeds ends with a final
frame, and counts the frames from before with its own. So its count is that of the frames its receiver got, with at
least one and a final one at their end, exactly if the stream was not asked for a frame before. -/
theorem accounts_iff (maxFrame : Nat) (body : Body) (cs : List StreamCall) (raises : Nat → Bool) :
    let s := (start maxFrame body).calls cs
    (s.stream.phase.isTerminal = true → s.run raises = ⟨[], .ok s.frames.length⟩) ∧
    ∀ n, (s.run raises).result = .ok n →
      n = s.frames.length + (s.run raises).delivered.length ∧
      (s.stream.phase.isTerminal = false → (s.run raises).endsFinal = true) ∧
      ((s.run raises).Accounts n ↔ .next ∉ cs) := by
  intro s
  have hlife : s.Lifecycle := (Lifecycle.start maxFrame body).calls cs
  refine ⟨hlife.run_of_isTerminal, fun n hn => ?_⟩
  obtain ⟨hcount, hends⟩ := hlife.run_of_ok hn
  exact ⟨hcount, hends, (hlife.accounts_run_iff hn).trans (answers_eq_nil_iff maxFrame body cs)⟩

/-- Two frames that are read at once. -/
def twoFrames : Body := [.bytes (utf8Bytes "\x7b\"hosts\":[\"a\"]\x7d \x7b\"final\":true\x7d")]

/-- A body that begins with no frame. -/
def noFrame : Body := [.bytes (utf8Bytes "x")]

/-- A run after these calls, by a receiver that does not raise the token. -/
def runAfter (body : Body) (cs : List StreamCall) : Stream.Outcome := ((start 64 body).calls cs).run fun _ => false

/-- Run from the start, the stream counts what its receiver gets; run after it has failed, it hands out nothing. -/
theorem accounts_twoFrames :
    (runAfter twoFrames []).result = .ok 2 ∧ (runAfter twoFrames []).Accounts 2 ∧
    (runAfter twoFrames [.next]).result = .ok 2 ∧ (runAfter twoFrames [.next]).endsFinal = true ∧
    runAfter noFrame [.next] = ⟨[], .ok 0⟩ := by
  have hfirst : (runAfter twoFrames []).result = .ok 2 := Stream.Outcome.result_eq_ok (by decide +kernel)
  have hlater : (runAfter twoFrames [.next]).result = .ok 2 := Stream.Outcome.result_eq_ok (by decide +kernel)
  have hphase : ((start 64 twoFrames).calls [.next]).stream.phase.isTerminal = false := by decide +kernel
  have hfailed : ((start 64 noFrame).calls [.next]).stream.phase.isTerminal = true := by decide +kernel
  have hnone : ((start 64 noFrame).calls [.next]).frames.length = 0 := by decide +kernel
  obtain ⟨-, -, haccounts⟩ := (accounts_iff 64 twoFrames [] fun _ => false).2 2 hfirst
  obtain ⟨-, hends, -⟩ := (accounts_iff 64 twoFrames [.next] fun _ => false).2 2 hlater
  refine ⟨hfirst, haccounts.2 List.not_mem_nil, hlater, hends hphase, ?_⟩
  rw [← hnone]
  exact (accounts_iff 64 noFrame [.next] fun _ => false).1 hfailed

/-- Run after its first frame, the stream counts two frames where one was received; run after it has failed, it
succeeds with none. -/
theorem not_accounts_afterNext :
    ((runAfter twoFrames [.next]).result = .ok 2 ∧ ¬ (runAfter twoFrames [.next]).Accounts 2) ∧
    (runAfter noFrame [.next]).result = .ok 0 ∧ ¬ (runAfter noFrame [.next]).Accounts 0 := by
  have hlength : (runAfter twoFrames [.next]).delivered.length = 1 := by decide +kernel
  refine ⟨⟨Stream.Outcome.result_eq_ok (by decide +kernel), fun h => ?_⟩,
    Stream.Outcome.result_eq_ok (by decide +kernel), fun h => ?_⟩
  · exact absurd (hlength.symm.trans h.length_eq) (by decide)
  · exact Nat.lt_irrefl 0 h.pos

end StreamSession

end ClusterMetrics
