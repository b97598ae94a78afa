import ClusterMetrics.Proofs.Stream.RunSteps

/-! # The life of a stream

A caller asks a stream for its next frame and raises the token, in any order and as often as it likes. Main
statement: at any time the phase of the stream tells what was answered so far, and what is going to be answered
(`StreamSession.lifecycle_calls`). -/

namespace ClusterMetrics

/-! ### Reading without interruption -/

namespace FrameDecoder
variable {d d' : FrameDecoder} {body body' : Body} {f : Frame}

theorem begin_ne_cancelled : d.begin ≠ .error .cancelled := by
  unfold begin
  dsimp only
  repeat' split
  all_goals nofun

theorem scanFrame_ne_cancelled : d.scanFrame ≠ .error .cancelled := by
  unfold scanFrame
  dsimp only
  repeat' split
  all_goals nofun

theorem next?_ne_cancelled : d.next? ≠ .error .cancelled := by
  unfold next?
  cases hb : d.begin with
  | error e =>
    intro h
    cases h
    exact begin_ne_cancelled hb
  | ok begun =>
    obtain ⟨d₁, hasBegun⟩ := begun
    cases hasBegun with
    | true => exact scanFrame_ne_cancelled (d := d₁)
    | false => nofun

/-- Only an interruption ends reading as cancelled. -/
theorem nextFrom_ne_cancelled (h : ReadEvent.interrupt ∉ body) : d.nextFrom body ≠ .error .cancelled := by
  induction body generalizing d with
  | nil =>
    rw [nextFrom]
    rcases hn : d.next? with e | ⟨d₁, f?⟩
    · intro he
      cases he
      exact next?_ne_cancelled hn
    · cases f? <;> nofun
  | cons event body ih =>
    rw [List.mem_cons, not_or] at h
    obtain ⟨hevent, hbody⟩ := h
    rw [nextFrom]
    rcases hn : d.next? with e | ⟨d₁, f?⟩
    · intro he
      cases he
      exact next?_ne_cancelled hn
    · cases f? with
      | some f => nofun
      | none =>
        cases event with
        | bytes bs => exact ih hbody
        | pending => exact ih hbody
        | failure text => nofun
        | interrupt => exact absurd rfl hevent

/-- What is left of a body is its end. -/
theorem suffix_nextFrom (h : d.nextFrom body = .ok (f, d', body')) : body' <:+ body := by
  refine nextFrom_induction (motive := fun _ body => body' <:+ body) ?_ ?_ ?_ h
  · exact fun _ _ => List.suffix_rfl
  · exact fun _ _ _ _ _ ih => ih.trans (List.suffix_cons ..)
  · exact fun _ _ _ _ ih => ih.trans (List.suffix_cons ..)

end FrameDecoder

/-! ### Sessions -/

inductive StreamCall where
  /-- The caller asks for the next frame. -/
  | next
  /-- The caller raises the token. -/
  | cancel
deriving DecidableEq

/-- A stream with its token, and what the stream has answered so far. -/
structure StreamSession where
  stream : Stream
  raised : Bool := false
  answers : List (Except StreamError (Option Frame)) := []

namespace StreamSession

def start (maxFrame : Nat) (body : Body) : StreamSession := { stream := .ofBody maxFrame body }

/-- The session after the stream has given an answer and become this one. -/
def answer (s : StreamSession) (stream : Stream) (a : Except StreamError (Option Frame)) : StreamSession :=
  { s with stream, answers := s.answers ++ [a] }

def call (s : StreamSession) : StreamCall → StreamSession
  | .next => s.answer (s.stream.next s.raised).2 (s.stream.next s.raised).1
  | .cancel => { s with raised := true }

def calls (s : StreamSession) (cs : List StreamCall) : StreamSession := cs.foldl call s

/-- The frame that an answer brings. -/
def frame? : Except StreamError (Option Frame) → Option Frame
  | .ok f? => f?
  | .error _ => none

def error? : Except StreamError (Option Frame) → Option StreamError
  | .ok _ => none
  | .error e => some e

def frames (s : StreamSession) : List Frame := s.answers.filterMap frame?

def errors (s : StreamSession) : List StreamError := s.answers.filterMap error?

/-- The token is raised while the stream waits for more of its body. -/
def Interrupted (s : StreamSession) : Prop := s.stream.decoder.nextFrom s.stream.body = .error .cancelled

/-- The phase of a stream against what it has answered. -/
structure Lifecycle (s : StreamSession) : Prop where
  idle_iff : s.stream.phase = .idle ↔ s.answers = []
  count : s.stream.frames = s.frames.length
  done_iff : s.stream.phase = .done ↔ ∃ f, s.frames.getLast? = some f ∧ f.isFinal = true
  failed_iff : s.stream.phase = .failed ↔ ∃ e ∈ s.errors, e ≠ .cancelled
  cancelled_iff : s.stream.phase = .cancelled ↔ .cancelled ∈ s.errors
  length_errors : s.errors.length ≤ 1
  /-- Only the last frame may be final. -/
  final_last : s.frames.Pairwise fun f _ => f.isFinal = false
  /-- First come the frames, then the error, and then, in a terminal phase, nothing any more. -/
  order : ∃ n, (0 < n → s.stream.phase.isTerminal = true) ∧
    s.answers = s.frames.map (fun f => .ok (some f)) ++ s.errors.map .error ++ List.replicate n (.ok none)

variable {s : StreamSession} {c : StreamCall} {cs later : List StreamCall} {maxFrame : Nat} {body : Body}

@[simp] theorem stream_answer (s : StreamSession) (stream : Stream) (a : Except StreamError (Option Frame)) :
    (s.answer stream a).stream = stream := rfl

@[simp] theorem answers_answer (s : StreamSession) (stream : Stream) (a : Except StreamError (Option Frame)) :
    (s.answer stream a).answers = s.answers ++ [a] := rfl

@[simp] theorem raised_answer (s : StreamSession) (stream : Stream) (a : Except StreamError (Option Frame)) :
    (s.answer stream a).raised = s.raised := rfl

theorem frames_answer (s : StreamSession) (stream : Stream) (a : Except StreamError (Option Frame)) :
    (s.answer stream a).frames = s.frames ++ (frame? a).toList := by
  have hlast : List.filterMap frame? [a] = (frame? a).toList := by
    cases h : frame? a <;> simp [h]
  rw [frames, answer, List.filterMap_append, hlast]
  rfl

theorem errors_answer (s : StreamSession) (stream : Stream) (a : Except StreamError (Option Frame)) :
    (s.answer stream a).errors = s.errors ++ (error? a).toList := by
  have hlast : List.filterMap error? [a] = (error? a).toList := by
    cases h : error? a <;> simp [h]
  rw [errors, answer, List.filterMap_append, hlast]
  rfl

namespace Lifecycle

theorem start (maxFrame : Nat) (body : Body) : (start maxFrame body).Lifecycle where
  idle_iff := ⟨fun _ => rfl, fun _ => rfl⟩
  count := rfl
  done_iff := ⟨nofun, fun ⟨_, h, _⟩ => nomatch h⟩
  failed_iff := ⟨nofun, fun ⟨_, h, _⟩ => nomatch h⟩
  cancelled_iff := ⟨nofun, nofun⟩
  length_errors := Nat.zero_le 1
  final_last := .nil
  order := ⟨0, nofun, rfl⟩

variable (h : s.Lifecycle)
include h

/-- In a terminal phase there is nothing to answer. -/
theorem nothing (ht : s.stream.phase.isTerminal = true) :
    (s.answer s.stream (.ok none)).Lifecycle := by
  have hframes : (s.answer s.stream (.ok none)).frames = s.frames := by
    rw [frames_answer]; exact List.append_nil _
  have herrors : (s.answer s.stream (.ok none)).errors = s.errors := by
    rw [errors_answer]; exact List.append_nil _
  have hidle : s.stream.phase ≠ .idle := by
    intro hidle
    rw [hidle] at ht; cases ht
  obtain ⟨n, -, horder⟩ := h.order
  refine ⟨⟨fun hi => absurd hi hidle, by simp⟩, ?_, ?_, ?_, ?_, ?_, ?_, n + 1, fun _ => ht, ?_⟩
  · rw [hframes]; exact h.count
  · rw [hframes]; exact h.done_iff
  · rw [herrors]; exact h.failed_iff
  · rw [herrors]; exact h.cancelled_iff
  · rw [herrors]; exact h.length_errors
  · rw [hframes]; exact h.final_last
  · rw [hframes, herrors, List.replicate_succ', ← List.append_assoc, ← horder, answers_answer]

section
variable (ht : s.stream.phase.isTerminal = false)
include ht

theorem errors_eq_nil : s.errors = [] := by
  refine List.eq_nil_iff_forall_not_mem.2 fun e he => ?_
  by_cases hc : e = .cancelled
  · have hphase := h.cancelled_iff.2 (hc ▸ he)
    rw [hphase] at ht; cases ht
  · have hphase := h.failed_iff.2 ⟨e, he, hc⟩
    rw [hphase] at ht; cases ht

theorem answers_eq : s.answers = s.frames.map (fun f => .ok (some f)) := by
  obtain ⟨n, hn, horder⟩ := h.order
  have hzero : n = 0 := by
    refine Nat.eq_zero_of_not_pos fun hpos => ?_
    rw [hn hpos] at ht; cases ht
  rw [horder, h.errors_eq_nil ht, hzero]
  simp

/-- No frame so far is final. -/
theorem not_final : ∀ f ∈ s.frames, f.isFinal = false := by
  have hdone : s.stream.phase ≠ .done := by
    intro hdone
    rw [hdone] at ht; cases ht
  have hpairs := h.final_last
  have hlast : ∀ f, s.frames.getLast? = some f → f.isFinal = false :=
    fun f hf => Bool.eq_false_iff.2 fun hfinal => hdone (h.done_iff.2 ⟨f, hf, hfinal⟩)
  generalize s.frames = fs at hpairs hlast
  rcases fs.eq_nil_or_concat with rfl | ⟨init, last, hfs⟩
  · intro f hf
    cases hf
  · rw [List.concat_eq_append] at hfs
    subst hfs
    intro f hf
    rcases List.mem_append.1 hf with hinit | hf
    · exact (List.pairwise_append.1 hpairs).2.2 f hinit last List.mem_cons_self
    · obtain rfl := List.mem_singleton.1 hf
      exact hlast f List.getLast?_concat

/-- An error ends the stream. -/
theorem error (e : StreamError) :
    (s.answer (s.stream.finish (Stream.phaseAfter e)) (.error e)).Lifecycle := by
  have hframes : (s.answer (s.stream.finish (Stream.phaseAfter e)) (.error e)).frames = s.frames := by
    rw [frames_answer]; exact List.append_nil _
  have herrors : (s.answer (s.stream.finish (Stream.phaseAfter e)) (.error e)).errors = [e] := by
    rw [errors_answer, h.errors_eq_nil ht]; rfl
  have hnot := h.not_final ht
  have hmem : ∀ f, s.frames.getLast? = some f → f ∈ s.frames := fun f hf => List.mem_of_getLast? hf
  refine ⟨⟨?_, by simp⟩, ?_, ?_, ?_, ?_, ?_, ?_, 0, nofun, ?_⟩
  · cases e <;> nofun
  · rw [hframes]; exact h.count
  · rw [hframes]
    refine ⟨by cases e <;> nofun, fun ⟨f, hf, hfinal⟩ => ?_⟩
    rw [hnot f (hmem f hf)] at hfinal; cases hfinal
  · rw [herrors]
    cases e <;> simp [Stream.finish, Stream.phaseAfter, StreamError.isCancelled]
  · rw [herrors]
    cases e <;> simp [Stream.finish, Stream.phaseAfter, StreamError.isCancelled]
  · rw [herrors]; exact Nat.le_refl 1
  · rw [hframes]; exact h.final_last
  · rw [hframes, herrors, List.map_singleton, List.replicate_zero, List.append_nil, ← h.answers_eq ht,
      answers_answer]

/-- A frame ends the stream if it is final. -/
theorem frame (f : Frame) (decoder : FrameDecoder) (body : Body) :
    (s.answer (s.stream.after f decoder body) (.ok (some f))).Lifecycle := by
  have hframes : (s.answer (s.stream.after f decoder body) (.ok (some f))).frames = s.frames ++ [f] := by
    rw [frames_answer]; rfl
  have herrors : (s.answer (s.stream.after f decoder body) (.ok (some f))).errors = [] := by
    rw [errors_answer, h.errors_eq_nil ht]; rfl
  have hphase : (s.stream.after f decoder body).phase = if f.isFinal = true then .done else .streaming := by
    cases hf : f.isFinal with
    | true => rw [Stream.after_of_final decoder body hf, if_pos rfl]
    | false => rw [Stream.after_of_not_final decoder body hf, if_neg Bool.false_ne_true]
  refine ⟨⟨?_, by simp⟩, ?_, ?_, ?_, ?_, ?_, ?_, 0, nofun, ?_⟩
  · rw [stream_answer, hphase]
    split <;> nofun
  · rw [hframes, List.length_append, List.length_singleton, ← h.count]
    exact Stream.frames_after f decoder body
  · rw [hframes, stream_answer, hphase, List.getLast?_concat]
    cases hf : f.isFinal <;> simp [hf]
  · rw [herrors, stream_answer, hphase]
    split <;> simp
  · rw [herrors, stream_answer, hphase]
    split <;> simp
  · rw [herrors]; exact Nat.zero_le 1
  · rw [hframes]
    refine List.pairwise_append.2 ⟨h.final_last, List.pairwise_singleton .., fun g hg _ _ => h.not_final ht g hg⟩
  · rw [hframes, herrors, List.map_append, ← h.answers_eq ht]
    simp

end

theorem call (c : StreamCall) : (s.call c).Lifecycle := by
  cases c with
  | cancel => exact { h with }
  | next =>
    rw [StreamSession.call]
    rcases s.stream.next_cases s.raised with
      ⟨ht, hn⟩ | ⟨ht, -, hn⟩ | ⟨ht, -, e, -, hn⟩ | ⟨ht, -, f, decoder, body, -, hn⟩
    · rw [hn]; exact h.nothing ht
    · rw [hn]; exact h.error ht .cancelled
    · rw [hn]; exact h.error ht e
    · rw [hn]; exact h.frame ht f decoder body

omit h in
theorem calls (h : s.Lifecycle) (cs : List StreamCall) : (s.calls cs).Lifecycle := by
  induction cs generalizing s with
  | nil => exact h
  | cons c cs ih => exact ih (h.call c)

end Lifecycle

/-! ### The token and the body -/

theorem raised_calls (s : StreamSession) (cs : List StreamCall) :
    (s.calls cs).raised = true ↔ s.raised = true ∨ .cancel ∈ cs := by
  induction cs generalizing s with
  | nil => simp [calls]
  | cons c cs ih =>
    have hcall := ih (s.call c)
    rw [calls] at hcall ⊢
    rw [List.foldl_cons, hcall]
    cases c <;> simp [call]

theorem length_answers (s : StreamSession) (cs : List StreamCall) :
    (s.calls cs).answers.length = s.answers.length + cs.count .next := by
  induction cs generalizing s with
  | nil => rfl
  | cons c cs ih =>
    have hcall := ih (s.call c)
    rw [calls] at hcall ⊢
    rw [List.foldl_cons, hcall]
    cases c with
    | next => simp [call]; omega
    | cancel => simp [call]

theorem suffix_call (h : s.stream.body <:+ body) (c : StreamCall) : (s.call c).stream.body <:+ body := by
  cases c with
  | cancel => exact h
  | next =>
    rw [call]
    rcases s.stream.next_cases s.raised with
      ⟨-, hn⟩ | ⟨-, -, hn⟩ | ⟨-, -, e, -, hn⟩ | ⟨-, -, f, decoder, body', hread, hn⟩
    · rw [hn]; exact h
    · rw [hn]; exact List.nil_suffix
    · rw [hn]; exact List.nil_suffix
    · rw [hn]
      cases hf : f.isFinal with
      | true => rw [Stream.after_of_final decoder body' hf]; exact List.nil_suffix
      | false =>
        rw [Stream.after_of_not_final decoder body' hf]
        exact (FrameDecoder.suffix_nextFrom hread).trans h

/-- What a stream has still to read is the end of its body. -/
theorem suffix_calls (h : s.stream.body <:+ body) (cs : List StreamCall) : (s.calls cs).stream.body <:+ body := by
  induction cs generalizing s with
  | nil => exact h
  | cons c cs ih => exact ih (suffix_call h c)

/-! ### What is going to be answered -/

/-- In a terminal phase nothing changes any more. -/
theorem calls_of_isTerminal (ht : s.stream.phase.isTerminal = true) (later : List StreamCall) :
    (s.calls later).stream = s.stream ∧
      (s.calls later).answers = s.answers ++ List.replicate (later.count .next) (.ok none) := by
  induction later generalizing s with
  | nil => exact ⟨rfl, (List.append_nil _).symm⟩
  | cons c later ih =>
    rw [calls, List.foldl_cons]
    have hstream : (s.call c).stream = s.stream := by
      cases c with
      | cancel => rfl
      | next => rw [call, Stream.next_of_isTerminal ht, stream_answer]
    obtain ⟨hs, ha⟩ := ih (s := s.call c) (by rw [hstream]; exact ht)
    rw [calls] at hs ha
    refine ⟨hs.trans hstream, ha.trans ?_⟩
    cases c with
    | cancel => simp [call]
    | next => simp [call, Stream.next_of_isTerminal ht, List.replicate_succ]

theorem next_ne_nothing (ht : s.stream.phase.isTerminal = false) : (s.stream.next s.raised).1 ≠ .ok none := by
  rcases s.stream.next_cases s.raised with ⟨ht', -⟩ | ⟨-, -, hn⟩ | ⟨-, -, e, -, hn⟩ | ⟨-, -, f, decoder, body, -, hn⟩
  · rw [ht] at ht'; cases ht'
  all_goals
    rw [hn]; nofun

theorem next_eq_cancelled_iff (ht : s.stream.phase.isTerminal = false) :
    (s.stream.next s.raised).1 = .error .cancelled ↔ s.raised = true ∨ s.Interrupted := by
  rcases s.stream.next_cases s.raised with
    ⟨ht', -⟩ | ⟨-, hr, hn⟩ | ⟨-, hr, e, hread, hn⟩ | ⟨-, hr, f, decoder, body, hread, hn⟩
  · rw [ht] at ht'; cases ht'
  · rw [hn, hr]
    exact ⟨fun _ => .inl rfl, fun _ => rfl⟩
  · rw [hn, hr, Interrupted, hread]
    constructor
    · intro he
      cases he
      exact .inr rfl
    · rintro (hfalse | he)
      · cases hfalse
      · cases he; rfl
  · rw [hn, hr, Interrupted, hread]
    exact ⟨nofun, by rintro (hfalse | he) <;> contradiction⟩

/-- After any calls on a new stream its phase tells what it has answered: it is idle until it is asked for a frame,
done after a final frame, failed after an error, cancelled after a cancellation, and there is at most one error,
after all frames. In a terminal phase it stays as it is and answers nothing; otherwise it answers something, and
that it is cancelled exactly if the token was raised, by a call before or while it waits for its body. -/
theorem lifecycle_calls (maxFrame : Nat) (body : Body) (cs : List StreamCall) :
    let s := (start maxFrame body).calls cs
    s.Lifecycle ∧
    (s.stream.phase = .idle ↔ .next ∉ cs) ∧
    (s.stream.phase.isTerminal = true → ∀ later, (s.calls later).stream = s.stream ∧
      (s.calls later).answers = s.answers ++ List.replicate (later.count .next) (.ok none)) ∧
    (s.stream.phase.isTerminal = false → (s.stream.next s.raised).1 ≠ .ok none) ∧
    (s.stream.phase.isTerminal = false →
      ((s.stream.next s.raised).1 = .error .cancelled ↔ .cancel ∈ cs ∨ s.Interrupted)) ∧
    (.interrupt ∉ body → ¬ s.Interrupted) := by
  intro s
  have hlife : s.Lifecycle := (Lifecycle.start maxFrame body).calls cs
  have hraised : s.raised = true ↔ .cancel ∈ cs := by
    rw [raised_calls]
    simp [start]
  refine ⟨hlife, ?_, calls_of_isTerminal, next_ne_nothing, fun ht => ?_, fun hbody => ?_⟩
  · rw [hlife.idle_iff, ← List.length_eq_zero_iff, length_answers, ← List.count_eq_zero]
    exact Nat.zero_add _ ▸ Iff.rfl
  · rw [next_eq_cancelled_iff ht, hraised]
  · exact FrameDecoder.nextFrom_ne_cancelled fun hmem => hbody ((suffix_calls List.suffix_rfl cs).mem hmem)

/-- A body that breaks off in its second frame. -/
def brokenOff : Body := [.bytes (utf8Bytes "\x7b\"hosts\":[\"a\"]\x7d ["), .pending]

/-- Cancelled between its frames, the stream is cancelled; else it fails and stays so. -/
theorem lifecycle_brokenOff :
    ReadEvent.interrupt ∉ brokenOff ∧
    (∀ s, s = (start 64 brokenOff).calls [.next, .cancel] →
      s.stream.phase.isTerminal = false ∧ (s.stream.next s.raised).1 = .error .cancelled) ∧
    ∀ s, s = (start 64 brokenOff).calls [.next, .next] →
      s.stream.phase = .failed ∧ s.frames.length = s.stream.frames ∧ (∃ e ∈ s.errors, e ≠ .cancelled) ∧
        ¬ s.Interrupted ∧ (s.calls [.cancel, .next]).answers = s.answers ++ [.ok none] := by
  have hbody : ReadEvent.interrupt ∉ brokenOff := by decide
  have hterminal : ((start 64 brokenOff).calls [.next, .cancel]).stream.phase.isTerminal = false := by
    decide +kernel
  have hfailed : ((start 64 brokenOff).calls [.next, .next]).stream.phase = .failed := by decide +kernel
  obtain ⟨-, -, -, -, hcancelled, -⟩ := lifecycle_calls 64 brokenOff [.next, .cancel]
  obtain ⟨hlife, -, hstays, -, -, hread⟩ := lifecycle_calls 64 brokenOff [.next, .next]
  have hterminal' : ((start 64 brokenOff).calls [.next, .next]).stream.phase.isTerminal = true := by
    rw [hfailed]; rfl
  refine ⟨hbody, ?_, ?_⟩
  · rintro _ rfl
    exact ⟨hterminal, (hcancelled hterminal).2 (.inl (by decide))⟩
  · rintro _ rfl
    exact ⟨hfailed, hlife.count.symm, hlife.failed_iff.1 hfailed, hread hbody,
      (hstays hterminal' [.cancel, .next]).2⟩

end StreamSession

end ClusterMetrics
