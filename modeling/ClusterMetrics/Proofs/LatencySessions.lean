import ClusterMetrics.Proofs.LatencyOrder

/-! # Summaries depend on the samples alone

Whenever a collection is measured its samples are sorted in place, so what is added later comes behind sorted samples.
What a measurement shows still depends only on which samples were added before it, not on their order, nor on whether
they came one by one, nor on earlier measurements: it is what a fresh collection of them shows
(`LatencySamples.readings_eq_measured`). -/

namespace ClusterMetrics

namespace Latency
variable {xs ys : List Duration}

theorem ascending_perm (ds : List Duration) : (ascending ds).Perm ds := List.mergeSort_perm ..

/-- Durations of one length are the same, so there is only one way to put samples in order. -/
theorem IsAscending.eq_of_perm (hxs : IsAscending xs) (hys : IsAscending ys) (h : xs.Perm ys) : xs = ys :=
  h.eq_of_pairwise (fun _ _ _ _ hle hge => Duration.ext (Nat.le_antisymm hle hge)) hxs hys

theorem ascending_congr (h : xs.Perm ys) : ascending xs = ascending ys :=
  (isAscending_ascending xs).eq_of_perm (isAscending_ascending ys)
    ((ascending_perm xs).trans (h.trans (ascending_perm ys).symm))

theorem total_congr (h : xs.Perm ys) : total xs = total ys := (h.map Duration.nanoseconds).sum_eq

end Latency

namespace LatencySamples
variable {s t : LatencySamples}

/-! ### Sessions -/

/-- What can be done with a collection. -/
inductive Step where
  | push (d : Duration)
  | append (ds : List Duration)
  | measure
deriving DecidableEq, Repr

def Step.added : Step → List Duration
  | push d => [d]
  | append ds => ds
  | measure => []

/-- What a measurement shows: its summary, if no step of it fails, and the samples right after it. -/
@[ext] structure Reading where
  summary : Option LatencySummary
  samples : LatencySamples

def measured (s : LatencySamples) : Reading := ⟨s.measure?.map (·.1), s.measure.2⟩

def Step.apply (s : LatencySamples) : Step → LatencySamples
  | push d => s.push d
  | append ds => s.append ds
  | measure => s.measured.samples

def after (s : LatencySamples) (steps : List Step) : LatencySamples := steps.foldl Step.apply s

def Step.reading? (s : LatencySamples) : Step → Option Reading
  | measure => some s.measured
  | _ => none

/-- What the measurements among the steps show, in turn. -/
def readings (s : LatencySamples) : List Step → List Reading
  | [] => []
  | step :: steps => (step.reading? s).toList ++ readings (step.apply s) steps

theorem readings_append (s : LatencySamples) (before later : List Step) :
    s.readings (before ++ later) = s.readings before ++ (s.after before).readings later := by
  induction before generalizing s with
  | nil => rfl
  | cons step before ih =>
    rw [List.cons_append, readings, readings, ih, List.append_assoc, after, after, List.foldl_cons]

theorem length_readings (s : LatencySamples) (steps : List Step) :
    (s.readings steps).length = steps.count .measure := by
  induction steps generalizing s with
  | nil => rfl
  | cons step steps ih =>
    rw [readings, List.length_append, ih, List.count_cons, Nat.add_comm]
    cases step <;> rfl

/-! ### Which samples there are -/

theorem sorted_perm (s : LatencySamples) : s.sorted.durations.Perm s.durations := Latency.ascending_perm s.durations

theorem Step.apply_perm (s : LatencySamples) (step : Step) :
    (step.apply s).durations.Perm (s.durations ++ step.added) := by
  cases step with
  | push d => exact .rfl
  | append ds => exact .rfl
  | measure =>
    rw [added, List.append_nil]
    exact s.sorted_perm

/-- Steps leave the samples that were there and those that they add. -/
theorem after_perm (s : LatencySamples) (steps : List Step) :
    (s.after steps).durations.Perm (s.durations ++ steps.flatMap Step.added) := by
  induction steps generalizing s with
  | nil =>
    rw [List.flatMap_nil, List.append_nil]
    exact .rfl
  | cons step steps ih =>
    rw [List.flatMap_cons, ← List.append_assoc]
    exact (ih (step.apply s)).trans ((Step.apply_perm s step).append_right _)

/-! ### What a measurement shows -/

theorem measure?_eq (s : LatencySamples) :
    s.measure? = if Latency.total s.durations < 2 ^ 128 then some s.measure else none := by
  have hsorted : Latency.IsAscending s.sorted.durations := Latency.isAscending_ascending s.durations
  rw [measure?, Latency.summarizeAscending?_eq_ite hsorted, Latency.total_congr s.sorted_perm]
  split
  · rfl
  · rfl

theorem measured_congr (h : s.durations.Perm t.durations) : s.measured = t.measured := by
  have hsorted : s.sorted = t.sorted := congrArg LatencySamples.mk (Latency.ascending_congr h)
  rw [measured, measured, measure?, measure?, measure, measure, hsorted]

/-- A measurement shows what a fresh collection shows that holds the samples added before it, in whatever order: their
summary, unless their sum exceeds 128 bits, and after it they are in ascending order. -/
theorem readings_eq_measured (before later : List Step) (fresh : LatencySamples)
    (h : fresh.durations.Perm (before.flatMap Step.added)) :
    (readings empty (before ++ .measure :: later))[before.count .measure]? = some fresh.measured ∧
    fresh.measured.summary = (if Latency.total fresh.durations < 2 ^ 128 then some fresh.measure.1 else none) ∧
    Latency.IsAscending fresh.measured.samples.durations ∧
    fresh.measured.samples.durations.Perm (before.flatMap Step.added) ∧
    fresh.measured.samples.size = (before.flatMap Step.added).length := by
  have hsorted : fresh.measured.samples.durations.Perm (before.flatMap Step.added) := fresh.sorted_perm.trans h
  refine ⟨?_, ?_, Latency.isAscending_ascending fresh.durations, hsorted, hsorted.length_eq⟩
  · have hafter : (after empty before).measured = fresh.measured :=
      measured_congr ((after_perm empty before).trans h.symm)
    rw [readings_append, List.getElem?_append_right (Nat.le_of_eq (length_readings ..)), length_readings, Nat.sub_self,
      ← hafter]
    rfl
  · rw [measured, measure?_eq]
    split
    · rfl
    · rfl

/-- Three nanoseconds are added and measured, then one and two, and all are measured. -/
def interleaved : List Step :=
  [.push (.ofNanoseconds 3), .measure, .append [.ofNanoseconds 1, .ofNanoseconds 2], .measure]

/-- When all are measured once more, they show what they show in another order. -/
theorem readings_interleaved :
    [Duration.ofNanoseconds 2, .ofNanoseconds 3, .ofNanoseconds 1].Perm (interleaved.flatMap Step.added) ∧
    (readings empty (interleaved ++ .measure :: [.push (.ofNanoseconds 0), .measure]))[2]? =
      some ⟨some (Latency.summarizeAscending [.ofNanoseconds 1, .ofNanoseconds 2, .ofNanoseconds 3]),
        ⟨[.ofNanoseconds 1, .ofNanoseconds 2, .ofNanoseconds 3]⟩⟩ := by
  have hperm : [Duration.ofNanoseconds 2, .ofNanoseconds 3, .ofNanoseconds 1].Perm
      (interleaved.flatMap Step.added) := by decide
  obtain ⟨hreading, hsummary, hascending, hsamples, -⟩ :=
    readings_eq_measured interleaved [.push (.ofNanoseconds 0), .measure]
      ⟨[.ofNanoseconds 2, .ofNanoseconds 3, .ofNanoseconds 1]⟩ hperm
  have hinOrder : Latency.IsAscending [.ofNanoseconds 1, .ofNanoseconds 2, .ofNanoseconds 3] := by
    unfold Latency.IsAscending
    decide
  have hsorted := hascending.eq_of_perm hinOrder (hsamples.trans (by decide))
  refine ⟨hperm, hreading.trans (congrArg some ?_)⟩
  rw [if_pos (by decide)] at hsummary
  exact Reading.ext (hsummary.trans (congrArg (some <| Latency.summarizeAscending ·) hsorted))
    (congrArg LatencySamples.mk hsorted)

end LatencySamples

end ClusterMetrics
