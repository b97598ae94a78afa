import ClusterMetrics.Proofs.Stream.RunSteps

/-! # Runs that are cancelled

A raised token cuts a run short and changes nothing else. Main statement: a run whose receiver raises the token
on the `k`-th frame is the run that nobody cancels, cut off after that frame (`Stream.run_eq_cutAt`); a run that
had come to its final frame by then is not cut off. -/

namespace ClusterMetrics.Stream

namespace Outcome
variable {o : Outcome} {f : Frame} {k : Nat}

/-- Whether the last frame handed out is final. -/
def endsFinal (o : Outcome) : Bool := o.delivered.getLast?.any Frame.isFinal

/-- The run cut off after its `k`-th frame, if it was not over by then. -/
def cutAt (o : Outcome) (k : Nat) : Outcome :=
  if o.delivered.length < k ∨ (o.delivered.length = k ∧ o.endsFinal = true) then o
  else ⟨o.delivered.take k, .error .cancelled⟩

theorem cutAt_of_length_lt (h : o.delivered.length < k) : o.cutAt k = o := if_pos (.inl h)

theorem cutAt_of_endsFinal (h : o.delivered.length = k) (hf : o.endsFinal = true) : o.cutAt k = o :=
  if_pos (.inr ⟨h, hf⟩)

theorem cutAt_of_le (h : k ≤ o.delivered.length) (hf : ¬ (k = o.delivered.length ∧ o.endsFinal = true)) :
    o.cutAt k = ⟨o.delivered.take k, .error .cancelled⟩ := by
  refine if_neg fun hover => ?_
  rcases hover with hlt | ⟨heq, hfinal⟩
  · omega
  · exact hf ⟨heq.symm, hfinal⟩

theorem endsFinal_singleton (f : Frame) (result : Except StreamError Nat) : endsFinal ⟨[f], result⟩ = f.isFinal := rfl

theorem endsFinal_cons (hne : o.delivered ≠ []) : endsFinal ⟨f :: o.delivered, o.result⟩ = o.endsFinal := by
  obtain ⟨g, fs, hfs⟩ := List.exists_cons_of_ne_nil hne
  rw [endsFinal, endsFinal, hfs, List.getLast?_cons_cons]

/-- Cut off after its first frame, if that is not the final one. -/
theorem cutAt_one {later : Outcome} (hf : f.isFinal = false) :
    cutAt ⟨f :: later.delivered, later.result⟩ 1 = ⟨[f], .error .cancelled⟩ := by
  have hnot : ¬ (1 = (f :: later.delivered).length ∧ endsFinal ⟨f :: later.delivered, later.result⟩ = true) := by
    rintro ⟨hlen, hfinal⟩
    have hnil : later.delivered = [] := List.length_eq_zero_iff.1 (Nat.succ.inj hlen.symm)
    rw [hnil, endsFinal_singleton, hf] at hfinal
    cases hfinal
  have hle : 1 ≤ (f :: later.delivered).length := Nat.succ_le_succ (Nat.zero_le _)
  rw [cutAt_of_le (o := ⟨f :: later.delivered, later.result⟩) hle hnot]
  rfl

theorem cutAt_cons (hk : 1 ≤ k) :
    cutAt ⟨f :: o.delivered, o.result⟩ (k + 1) = ⟨f :: (o.cutAt k).delivered, (o.cutAt k).result⟩ := by
  by_cases hlt : o.delivered.length < k
  · have hlt' : (f :: o.delivered).length < k + 1 := Nat.succ_lt_succ hlt
    rw [cutAt_of_length_lt hlt, cutAt_of_length_lt hlt']
  · have hne : o.delivered ≠ [] := by
      intro hnil
      rw [hnil, List.length_nil] at hlt
      omega
    by_cases hfinal : k = o.delivered.length ∧ o.endsFinal = true
    · have hlen : (f :: o.delivered).length = k + 1 := by rw [List.length_cons, hfinal.1]
      rw [cutAt_of_endsFinal hfinal.1.symm hfinal.2]
      exact cutAt_of_endsFinal hlen ((endsFinal_cons hne).trans hfinal.2)
    · have hfinal' : ¬ (k + 1 = (f :: o.delivered).length ∧ endsFinal ⟨f :: o.delivered, o.result⟩ = true) := by
        rw [endsFinal_cons hne, List.length_cons, Nat.add_right_cancel_iff]
        exact hfinal
      have hle : k + 1 ≤ (f :: o.delivered).length := Nat.succ_le_succ (Nat.le_of_not_lt hlt)
      rw [cutAt_of_le (Nat.le_of_not_lt hlt) hfinal, cutAt_of_le hle hfinal', List.take_succ_cons]

end Outcome

variable {s : Stream} {raised : Bool} {raises : Nat → Bool} {received k : Nat} {f : Frame}

/-! ### The token is raised on a frame -/

/-- A run that is cut off is the run that nobody cancels up to there. -/
theorem runFrom_eq_cutAt (hk : 1 ≤ k) (hraise : raises (received + k) = true)
    (hbefore : ∀ j, 1 ≤ j → j < k → raises (received + j) = false) :
    s.runFrom false raises received = (s.runFrom false (fun _ => false) received).cutAt k := by
  induction hu : s.unread using Nat.strongRecOn generalizing s received k with
  | ind u ih =>
    subst hu
    have hempty : ∀ result, Outcome.cutAt ⟨[], result⟩ k = ⟨[], result⟩ :=
      fun result => Outcome.cutAt_of_length_lt (Nat.lt_of_succ_le hk)
    rcases s.next_cases false with ⟨ht, -⟩ | ⟨-, hfalse, -⟩ | ⟨-, -, e, -, hn⟩ | ⟨-, -, f, decoder, body, -, hn⟩
    · rw [runFrom_of_isTerminal ht, runFrom_of_isTerminal ht, hempty]
    · cases hfalse
    · rw [runFrom_of_error hn, runFrom_of_error hn, hempty]
    · have hlt := unread_next hn
      have hterminal := s.isTerminal_after f decoder body
      rw [runFrom_of_some hn, runFrom_of_some hn, Bool.or_self, Bool.false_or]
      generalize s.after f decoder body = s' at hn hlt hterminal
      obtain rfl | ⟨j, hj, rfl⟩ : k = 1 ∨ ∃ j, 1 ≤ j ∧ k = j + 1 := by
        rcases Nat.lt_or_ge 1 k with h | h
        · exact .inr ⟨k - 1, by omega, by omega⟩
        · exact .inl (by omega)
      · -- The token is raised on this frame, so nothing comes after it; it is no cut if the frame is final.
        rw [hraise]
        cases hf : f.isFinal with
        | true =>
          rw [hf] at hterminal
          rw [runFrom_of_isTerminal hterminal, runFrom_of_isTerminal hterminal]
          exact (Outcome.cutAt_of_endsFinal rfl ((Outcome.endsFinal_singleton ..).trans hf)).symm
        | false =>
          rw [hf] at hterminal
          rw [runFrom_of_raised hterminal, Outcome.cutAt_one hf]
      · have hnext : raises (received + 1) = false := hbefore 1 (Nat.le_refl 1) (by omega)
        have hraise' : raises (received + 1 + j) = true := by rw [← hraise]; congr 1; omega
        have hbefore' : ∀ i, 1 ≤ i → i < j → raises (received + 1 + i) = false := by
          intro i hi hij
          rw [← hbefore (1 + i) (by omega) (by omega)]; congr 1; omega
        rw [hnext, ih _ hlt hj hraise' hbefore' rfl, ← Outcome.cutAt_cons hj]

/-- If the token is raised before a run, nothing is handed out, and whatever the body holds makes no difference:
none of it is read. A receiver that raises the token on the `k`-th frame gets the first `k` frames of the run that
nobody cancels, which then ends as cancelled, unless it is over by then: it has fewer frames, or the `k`-th is its
final one. A run that has handed out a final frame succeeds, whenever the token is raised. -/
theorem run_eq_cutAt (maxFrame : Nat) (body : Body) (raises : Nat → Bool) (hk : 1 ≤ k) (hraise : raises k = true)
    (hbefore : ∀ j, 1 ≤ j → j < k → raises j = false) :
    let s := ofBody maxFrame body
    let whole := s.runAll
    ((∀ raises', s.run true raises' = ⟨[], .error .cancelled⟩) ∧
      ∀ body', (ofBody maxFrame body').next true = s.next true) ∧
    (whole.delivered.length < k → s.run false raises = whole) ∧
    (k ≤ whole.delivered.length → ¬ (k = whole.delivered.length ∧ whole.endsFinal = true) →
      s.run false raises = ⟨whole.delivered.take k, .error .cancelled⟩) ∧
    (k = whole.delivered.length → whole.endsFinal = true →
      s.run false raises = whole ∧ whole.result = .ok whole.delivered.length) ∧
    ∀ raised raises', (∃ f ∈ (s.run raised raises').delivered, f.isFinal = true) →
      (s.run raised raises').result = .ok (s.run raised raises').delivered.length := by
  intro s whole
  have hidle : ∀ body', (ofBody maxFrame body').phase.isTerminal = false := fun _ => rfl
  have hcut : s.run false raises = whole.cutAt k := by
    refine runFrom_eq_cutAt hk ?_ ?_
    · rw [Nat.zero_add]; exact hraise
    · intro j hj hjk
      rw [Nat.zero_add]; exact hbefore j hj hjk
  have hfinal : ∀ raised raises', (∃ f ∈ (s.run raised raises').delivered, f.isFinal = true) →
      (s.run raised raises').result = .ok (s.run raised raises').delivered.length := by
    rintro raised raises' ⟨f, hmem, hf⟩
    have hresult := result_of_mem_isFinal hmem hf
    rwa [show s.frames = 0 from rfl, Nat.zero_add] at hresult
  refine ⟨⟨fun raises' => runFrom_of_raised (hidle body), fun body' => ?_⟩, fun hlt => ?_, fun hle hne => ?_,
    fun heq hends => ⟨?_, ?_⟩, hfinal⟩
  · rw [next_of_raised (hidle body'), next_of_raised (hidle body)]; rfl
  · rw [hcut, Outcome.cutAt_of_length_lt hlt]
  · rw [hcut, Outcome.cutAt_of_le hle hne]
  · rw [hcut, Outcome.cutAt_of_endsFinal heq.symm hends]
  · obtain ⟨f, hlast, hf⟩ := (Option.any_eq_true _ _).1 hends
    exact hfinal false (fun _ => false) ⟨f, List.mem_of_getLast? hlast, hf⟩

/-- Three frames that are read at once. -/
def threeFrames : Stream :=
  ofBody 64 [.bytes (utf8Bytes "\x7b\"hosts\":[\"a\"]\x7d \x7b\"hosts\":[\"b\"]\x7d \x7b\"final\":true\x7d")]

/-- Cut off after the second frame, while the third is already there; not cut off on the third. -/
theorem run_threeFrames :
    threeFrames.runAll.delivered.length = 3 ∧
    (threeFrames.run true fun _ => false) = ⟨[], .error .cancelled⟩ ∧
    (threeFrames.run false (2 ≤ ·)) = ⟨threeFrames.runAll.delivered.take 2, .error .cancelled⟩ ∧
    (threeFrames.run false (3 ≤ ·)).result = .ok 3 := by
  have hlen : threeFrames.runAll.delivered.length = 3 := by decide +kernel
  have hends : threeFrames.runAll.endsFinal = true := by decide +kernel
  have hbefore : ∀ k j, 1 ≤ j → j < k → decide (k ≤ j) = false :=
    fun k j _ hjk => decide_eq_false (Nat.not_le_of_lt hjk)
  obtain ⟨⟨hraised, -⟩, -, hcut, -, -⟩ := run_eq_cutAt (k := 2) 64 threeFrames.body (2 ≤ ·)
    (by decide) (by decide) (hbefore 2)
  obtain ⟨-, -, -, hwhole, -⟩ := run_eq_cutAt (k := 3) 64 threeFrames.body (3 ≤ ·)
    (by decide) (by decide) (hbefore 3)
  obtain ⟨hrun, hresult⟩ := hwhole hlen.symm hends
  refine ⟨hlen, hraised _, hcut (hlen ▸ (by decide)) ?_, ?_⟩
  · rintro ⟨heq, -⟩
    exact absurd (heq.trans hlen) (by decide)
  · exact (congrArg Outcome.result hrun).trans (hresult.trans (congrArg Except.ok hlen))

end ClusterMetrics.Stream
