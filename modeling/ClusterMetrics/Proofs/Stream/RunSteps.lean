import ClusterMetrics.Stream.Run

/-! # Steps of a stream and of a run

What one `next` comes to in each case, and how a run goes on after it. -/

namespace ClusterMetrics.Stream
variable {s s' : Stream} {raised : Bool} {raises : Nat → Bool} {received : Nat} {f : Frame} {e : StreamError}

/-- A new stream that reads this body. -/
def ofBody (maxFrame : Nat) (body : Body) : Stream := { body, decoder := { maxFrame } }

/-- The stream after a frame was read that leaves this decoder and body. -/
def after (s : Stream) (f : Frame) (decoder : FrameDecoder) (body : Body) : Stream :=
  let s := { s with phase := .streaming, decoder, body, frames := s.frames + 1 }
  if f.isFinal then s.finish .done else s

theorem next_of_isTerminal (h : s.phase.isTerminal = true) : s.next raised = (.ok none, s) := by
  rw [next, if_pos h]

section
variable (h : s.phase.isTerminal = false)
include h

theorem next_of_raised : s.next true = (.error .cancelled, s.finish .cancelled) := by
  rw [next, if_neg (by simp [h])]; rfl

theorem next_of_error (hn : s.decoder.nextFrom s.body = .error e) :
    s.next false = (.error e, s.finish (phaseAfter e)) := by
  rw [next, if_neg (by simp [h])]
  simp only [Bool.false_eq_true, if_false, hn]

theorem next_of_ok {decoder : FrameDecoder} {body : Body}
    (hn : s.decoder.nextFrom s.body = .ok (f, decoder, body)) :
    s.next false = (.ok (some f), s.after f decoder body) := by
  rw [next, if_neg (by simp [h])]
  simp only [Bool.false_eq_true, if_false, hn, after]

end

/-- Everything that `next` can come to. -/
theorem next_cases (s : Stream) (raised : Bool) :
    (s.phase.isTerminal = true ∧ s.next raised = (.ok none, s)) ∨
    (s.phase.isTerminal = false ∧ raised = true ∧ s.next raised = (.error .cancelled, s.finish .cancelled)) ∨
    (s.phase.isTerminal = false ∧ raised = false ∧ ∃ e, s.decoder.nextFrom s.body = .error e ∧
      s.next raised = (.error e, s.finish (phaseAfter e))) ∨
    (s.phase.isTerminal = false ∧ raised = false ∧ ∃ f decoder body,
      s.decoder.nextFrom s.body = .ok (f, decoder, body) ∧ s.next raised = (.ok (some f), s.after f decoder body)) := by
  cases ht : s.phase.isTerminal with
  | true => exact .inl ⟨rfl, next_of_isTerminal ht⟩
  | false =>
    cases raised with
    | true => exact .inr (.inl ⟨rfl, rfl, next_of_raised ht⟩)
    | false =>
      cases hn : s.decoder.nextFrom s.body with
      | error e => exact .inr (.inr (.inl ⟨rfl, rfl, e, rfl, next_of_error ht hn⟩))
      | ok read =>
        obtain ⟨f, decoder, body⟩ := read
        exact .inr (.inr (.inr ⟨rfl, rfl, f, decoder, body, rfl, next_of_ok ht hn⟩))

theorem after_of_final (decoder : FrameDecoder) (body : Body) (hf : f.isFinal = true) :
    s.after f decoder body =
      { phase := .done, body := [], decoder := { maxFrame := decoder.maxFrame }, frames := s.frames + 1 } := by
  simp only [after, hf, if_true, finish]

theorem after_of_not_final (decoder : FrameDecoder) (body : Body) (hf : f.isFinal = false) :
    s.after f decoder body = { phase := .streaming, decoder, body, frames := s.frames + 1 } := by
  simp only [after, hf, Bool.false_eq_true, if_false]

theorem frames_after (f : Frame) (decoder : FrameDecoder) (body : Body) :
    (s.after f decoder body).frames = s.frames + 1 := by
  cases hf : f.isFinal with
  | true => rw [after_of_final decoder body hf]
  | false => rw [after_of_not_final decoder body hf]

theorem isTerminal_after (f : Frame) (decoder : FrameDecoder) (body : Body) :
    (s.after f decoder body).phase.isTerminal = f.isFinal := by
  cases hf : f.isFinal with
  | true => rw [after_of_final decoder body hf]; rfl
  | false => rw [after_of_not_final decoder body hf]; rfl

/-! ### Runs -/

theorem runFrom_of_none (h : s.next raised = (.ok none, s')) :
    s.runFrom raised raises received = ⟨[], .ok s'.frames⟩ := by
  rw [runFrom]; split <;> simp_all

theorem runFrom_of_error (h : s.next raised = (.error e, s')) :
    s.runFrom raised raises received = ⟨[], .error e⟩ := by
  rw [runFrom]; split <;> simp_all

theorem runFrom_of_some (h : s.next raised = (.ok (some f), s')) :
    s.runFrom raised raises received =
      let later := s'.runFrom (raised || raises (received + 1)) raises (received + 1)
      ⟨f :: later.delivered, later.result⟩ := by
  rw [runFrom]; split <;> simp_all

theorem runFrom_of_isTerminal (h : s.phase.isTerminal = true) :
    s.runFrom raised raises received = ⟨[], .ok s.frames⟩ := runFrom_of_none (next_of_isTerminal h)

theorem runFrom_of_raised (h : s.phase.isTerminal = false) :
    s.runFrom true raises received = ⟨[], .error .cancelled⟩ := runFrom_of_error (next_of_raised h)

/-- If the receiver never raises the token, what it has got makes no difference. -/
theorem runFrom_received (s : Stream) (raised : Bool) (m n : Nat) :
    s.runFrom raised (fun _ => false) m = s.runFrom raised (fun _ => false) n := by
  induction hu : s.unread using Nat.strongRecOn generalizing s raised m n with
  | ind u ih =>
    subst hu
    rcases hn : s.next raised with ⟨e | _ | f, s'⟩
    · rw [runFrom_of_error hn, runFrom_of_error hn]
    · rw [runFrom_of_none hn, runFrom_of_none hn]
    · rw [runFrom_of_some hn, runFrom_of_some hn, ih _ (unread_next hn) s' _ (m + 1) (n + 1) rfl]

theorem runAll_of_none (h : s.next false = (.ok none, s')) : s.runAll = ⟨[], .ok s'.frames⟩ := runFrom_of_none h

theorem runAll_of_error (h : s.next false = (.error e, s')) : s.runAll = ⟨[], .error e⟩ := runFrom_of_error h

theorem runAll_of_some (h : s.next false = (.ok (some f), s')) :
    s.runAll = ⟨f :: s'.runAll.delivered, s'.runAll.result⟩ := by
  rw [runAll, run, runFrom_of_some h, Bool.or_self, runFrom_received s' false (0 + 1) 0]; rfl

/-! ### The final frame -/

/-- Once its final frame is handed out a run succeeds, whenever the token is raised. -/
theorem result_of_mem_isFinal (hmem : f ∈ (s.runFrom raised raises received).delivered) (hf : f.isFinal = true) :
    (s.runFrom raised raises received).result =
      .ok (s.frames + (s.runFrom raised raises received).delivered.length) := by
  induction hu : s.unread using Nat.strongRecOn generalizing s raised received with
  | ind u ih =>
    subst hu
    rcases s.next_cases raised with ⟨ht, -⟩ | ⟨-, -, hn⟩ | ⟨-, -, e, -, hn⟩ | ⟨-, -, g, decoder, body, -, hn⟩
    · rw [runFrom_of_isTerminal ht] at hmem
      cases hmem
    · rw [runFrom_of_error hn] at hmem
      cases hmem
    · rw [runFrom_of_error hn] at hmem
      cases hmem
    · have hframes := s.frames_after g decoder body
      rw [runFrom_of_some hn] at hmem ⊢
      rcases List.mem_cons.1 hmem with rfl | hlater
      · have hterminal : (s.after f decoder body).phase.isTerminal = true := by rw [isTerminal_after, hf]
        rw [runFrom_of_isTerminal hterminal, hframes]
        rfl
      · have hresult := ih _ (unread_next hn) hlater rfl
        simp only [hresult, hframes, List.length_cons]
        congr 1
        omega

/-- A run whose last frame is final succeeds. -/
theorem exists_result_of_getLast? (hlast : s.runAll.delivered.getLast? = some f) (hf : f.isFinal = true) :
    ∃ n, s.runAll.result = .ok n := ⟨_, result_of_mem_isFinal (List.mem_of_getLast? hlast) hf⟩

end ClusterMetrics.Stream
