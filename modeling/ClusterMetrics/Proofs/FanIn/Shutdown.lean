import Mathlib.Data.List.Perm.Subperm
import ClusterMetrics.Proofs.FanIn.Confluence

/-! # Shutting down

The consumer ends in one step: it finds the caller's token raised, or the channel closed. What it has received
changes no more after that, whatever the tasks do until they have stopped, and before it nothing is received
once the token is raised. So a run that completes has received all that the sources send, or it is cancelled
(`Gathering.cancelled_or_whole`); and a task can always stop, also one that waits for room in the channel
(`Gathering.exists_stopped`). -/

namespace ClusterMetrics

namespace Worker
variable {w : Worker} {e : SourceEvent}

/-- A task that is told to stop reads no more. -/
theorem activity_read_stopped (w : Worker) : (w.read true).activity = .ended := by
  have hn : (w.stream.next true).1 = .ok none ∨ (w.stream.next true).1 = .error .cancelled := by
    rw [Stream.next]
    split
    · exact .inl rfl
    · exact .inr rfl
  rcases hn with hn | hn
  · rw [read, hn]
  · rw [read, hn]; rfl

theorem uninterrupted_of_ended (h : w.activity = .ended) : w.Uninterrupted := by
  rw [Uninterrupted, h]
  trivial

theorem uninterrupted_of_read (h : w.activity = .reading) (hi : w.interrupts false = false)
    (hu : (w.read false).Uninterrupted) : w.Uninterrupted := by
  rw [Uninterrupted, h]
  rcases hn : w.stream.next false with ⟨e | _ | f, s'⟩
  · rw [interrupts, hn] at hi
    rw [Stream.runAll_of_error hn]
    exact hi
  · rw [Stream.runAll_of_none hn]; rfl
  · rw [Uninterrupted, read, hn] at hu
    rw [Stream.runAll_of_some hn]
    exact hu

theorem uninterrupted_of_sent (h : w.activity = .sending e) (hu : (w.sent e).Uninterrupted) : w.Uninterrupted := by
  rw [Uninterrupted, h]
  cases e with
  | frame => exact hu
  | failed => trivial

end Worker

namespace Gathering
open Relation
variable {s s' : Gathering} {sources : List Source}

/-! ### Steps while the consumer ends -/

/-- A step, or a send into a channel that nobody receives from any more and that is still there. -/
inductive LooseStep (s : Gathering) : Gathering → Prop where
  | step {s' : Gathering} (h : Step s s') : LooseStep s s'
  | sendLate {before after : List Worker} {w : Worker} {e : SourceEvent} (hw : s.workers = before ++ w :: after)
      (h : w.activity = .sending e) (hclosed : s.outcome ≠ none) (hstopped : s.stopped = false)
      (hroom : s.channel.length < capacity) :
      LooseStep s { s with workers := before ++ w.sent e :: after, channel := s.channel ++ [e] }

def LooseRun : Gathering → Gathering → Prop := ReflTransGen LooseStep

theorem Run.loose (h : Run s s') : LooseRun s s' := ReflTransGen.mono (fun _ _ => LooseStep.step) _ _ h

namespace LooseStep

theorem raised_mono (h : LooseStep s s') (hr : s.raised = true) : s'.raised = true := by
  cases h with
  | step h =>
    cases hr' : s'.raised with
    | true => rfl
    | false => rw [h.raised_mono hr'] at hr; cases hr
  | sendLate => exact hr

/-- While the consumer goes on, there are no other steps, and the tasks are not told to stop. -/
theorem step_of_open (h : LooseStep s s') (ho : s'.outcome = none) :
    s.outcome = none ∧ Step s s' ∧ s'.stopped = s.stopped := by
  cases h with
  | step h =>
    refine ⟨?_, h, ?_⟩
    · cases h with
      | raise | read | send | hangUp | receive | stop => exact ho
      | cancel | close => cases ho
    · cases h with
      | stop hclosed => exact absurd ho hclosed
      | raise | read | send | hangUp | receive | cancel | close => rfl
  | sendLate _ _ hclosed => exact absurd ho hclosed

/-- What a step is to the consumer: nothing, one more event, or its end. -/
theorem consumer_cases (h : LooseStep s s') :
    (s'.outcome = s.outcome ∧ s'.received = s.received) ∨
    (s'.outcome = none ∧ s'.raised = false) ∨
    (s.outcome = none ∧ s.raised = true ∧ s' = { s with outcome := some (.error .cancelled) }) ∨
    (s.outcome = none ∧ s.raised = false ∧ (∀ w ∈ s.workers, w.activity = .ended) ∧
      s' = { s with outcome := some (.ok ()) } ∧ Step s s') := by
  cases h with
  | step h =>
    cases h with
    | raise | read | send | hangUp | stop => exact .inl ⟨rfl, rfl⟩
    | receive hopen hr => exact .inr (.inl ⟨hopen, hr⟩)
    | cancel hopen hr => exact .inr (.inr (.inl ⟨hopen, hr, rfl⟩))
    | close hopen hr hc hw => exact .inr (.inr (.inr ⟨hopen, hr, hw, rfl, .close hopen hr hc hw⟩))
  | sendLate => exact .inl ⟨rfl, rfl⟩

end LooseStep

/-- As long as the consumer goes on, nothing was sent late. -/
theorem run_of_open (h : LooseRun (start sources) s) (ho : s.outcome = none) :
    Run (start sources) s ∧ s.stopped = false := by
  induction h with
  | refl => exact ⟨.refl, rfl⟩
  | tail _ hstep ih =>
    obtain ⟨ho', hstep, hstopped⟩ := hstep.step_of_open ho
    obtain ⟨hrun, hstopped'⟩ := ih ho'
    exact ⟨hrun.tail hstep, hstopped.trans hstopped'⟩

theorem closed_of_isComplete (h : LooseRun (start sources) s) (hc : s.IsComplete) : s.outcome ≠ none := by
  intro ho
  have hstopped := (run_of_open h ho).2
  rw [hc.stopped] at hstopped
  cases hstopped

/-! ### How the consumer ends -/

/-- Whatever was received was received before the token was raised. -/
theorem exists_unraised (h : LooseRun (start sources) s) :
    ∃ u, Run (start sources) u ∧ u.raised = false ∧ u.received = s.received := by
  induction h with
  | refl => exact ⟨start sources, .refl, rfl, rfl⟩
  | @tail s s' hrun hstep ih =>
    obtain ⟨u, hu, hr, hreceived⟩ := ih
    rcases hstep.consumer_cases with ⟨-, hsame⟩ | ⟨ho, hr'⟩ | ⟨-, -, rfl⟩ | ⟨-, -, -, rfl, -⟩
    · exact ⟨u, hu, hr, hreceived.trans hsame.symm⟩
    · exact ⟨s', (run_of_open (hrun.tail hstep) ho).1, hr', rfl⟩
    · exact ⟨u, hu, hr, hreceived⟩
    · exact ⟨u, hu, hr, hreceived⟩

/-- What led the consumer to its end: the token, or a channel that an uncancelled run closes as well. -/
inductive Decided (sources : List Source) (s : Gathering) : Prop where
  | cancelled {c : Gathering} (ho : s.outcome = some (.error .cancelled)) (hc : LooseRun (start sources) c)
      (hs : LooseRun c s) (hr : c.raised = true) (hopen : c.outcome = none)
  | closed {u : Gathering} (ho : s.outcome = some (.ok ())) (hu : Run (start sources) u) (hc : u.IsComplete)
      (hr : u.raised = false) (hsame : u.outcome = s.outcome) (hreceived : u.received = s.received)

theorem Decided.of_same (hd : Decided sources s) (h : LooseStep s s') (ho : s'.outcome = s.outcome)
    (hreceived : s'.received = s.received) : Decided sources s' := by
  cases hd with
  | cancelled ho' hc hs hr hopen => exact .cancelled (ho.trans ho') hc (hs.tail h) hr hopen
  | closed ho' hu hc hr hsame hreceived' =>
    exact .closed (ho.trans ho') hu hc hr (hsame.trans ho.symm) (hreceived'.trans hreceived.symm)

theorem decided (h : LooseRun (start sources) s) (ho : s.outcome ≠ none) : Decided sources s := by
  induction h with
  | refl => exact absurd rfl ho
  | @tail s s' hrun hstep ih =>
    rcases hstep.consumer_cases with ⟨hsame, hreceived⟩ | ⟨hopen, -⟩ | ⟨hopen, hr, rfl⟩ | ⟨hopen, hr, hw, rfl, hclose⟩
    · exact (ih (hsame ▸ ho)).of_same hstep hsame hreceived
    · exact absurd hopen ho
    · exact .cancelled rfl hrun (.single hstep) hr hopen
    · have hstop := Step.stop (s := { s with outcome := some (.ok ()) }) ho
      have hu := ((run_of_open hrun hopen).1.tail hclose).tail hstop
      exact .closed rfl hu ⟨rfl, hw⟩ hr rfl rfl

/-- A consumer that finds the token raised is cancelled in the end. -/
theorem outcome_of_raised (h : LooseRun s s') (hr : s.raised = true) (ho : s.outcome = none) :
    s'.raised = true ∧ (s'.outcome = none ∨ s'.outcome = some (.error .cancelled)) := by
  induction h with
  | refl => exact ⟨hr, .inl ho⟩
  | @tail u u' _ hstep ih =>
    obtain ⟨hr', ho'⟩ := ih
    refine ⟨hstep.raised_mono hr', ?_⟩
    rcases hstep.consumer_cases with ⟨hsame, -⟩ | ⟨hopen, -⟩ | ⟨-, -, rfl⟩ | ⟨-, hr'', -, -, -⟩
    · rwa [hsame]
    · exact .inl hopen
    · exact .inr rfl
    · rw [hr'] at hr''
      cases hr''

theorem returned?_eq_cancelled_iff : s.returned? = some (.error .cancelled) ↔ s.outcome = some (.error .cancelled) := by
  rcases ho : s.outcome with _ | e | _
  · rw [returned?, ho]; simp
  · rw [returned?, ho]; simp
  · rw [returned?, ho]; simp

/-! ### What is received -/

/-- What was received fails for reasons of the sources' own, each of them once at most. -/
theorem failures_subperm (h : LooseRun (start sources) s) :
    s.received.failures.Subperm (sources.filterMap Source.failure?) := by
  obtain ⟨u, hu, hr, hreceived⟩ := exists_unraised h
  obtain ⟨history, hhistory, hrest⟩ := (gathered_of_run hu hr).history
  have hall := FanIn.failures_perm (hrest _ (.flatten _))
  rw [FanIn.failures_foldl_receive, List.filterMap_append, List.filterMap_append, List.append_assoc] at hall
  rw [← hreceived, hhistory, FanIn.failures_foldl_receive]
  exact (List.sublist_append_left _ _).subperm.trans hall.subperm

/-- A run without the token reads no source that raises it to the end. -/
theorem uninterrupted_of_run (h : Run (start sources) s) (hr : s.raised = false)
    (hu : ∀ w ∈ s.workers, w.Uninterrupted) : ∀ source ∈ sources, source.interrupts = false := by
  induction h with
  | refl =>
    intro source hsource
    exact hu _ (List.mem_map_of_mem hsource)
  | @tail s s' hrun hstep ih =>
    have hr' := hstep.raised_mono hr
    have hg := gathered_of_run hrun hr'
    refine ih hr' fun v hv => ?_
    -- Only the task that takes the step changes.
    have hothers : ∀ {before after : List Worker} {w w' : Worker}, s.workers = before ++ w :: after →
        s'.workers = before ++ w' :: after → (w'.Uninterrupted → w.Uninterrupted) → v.Uninterrupted := by
      intro before after w w' hw hw' hback
      rw [hw'] at hu
      obtain ⟨hbefore, hu⟩ := List.forall_mem_append.1 hu
      obtain ⟨hw'', hafter⟩ := List.forall_mem_cons.1 hu
      have hall : ∀ v ∈ before ++ w :: after, v.Uninterrupted :=
        List.forall_mem_append.2 ⟨hbefore, List.forall_mem_cons.2 ⟨hback hw'', hafter⟩⟩
      exact hall v (hw ▸ hv)
    cases hstep with
    | raise | receive | cancel | close | stop => exact hu v hv
    | @read before after w hw hreading =>
      have hopen := hg.open_of_not_ended (mem_of_workers hw) (by rw [hreading]; nofun)
      have hi := (Bool.or_eq_false_iff.1 hr).2
      rw [hg.running hopen] at hi
      refine hothers hw rfl fun hread => ?_
      rw [hg.running hopen] at hread
      exact Worker.uninterrupted_of_read hreading hi hread
    | send hw hsending => exact hothers hw rfl (Worker.uninterrupted_of_sent hsending)
    | hangUp hw hsending hclosed =>
      exact absurd (hg.open_of_not_ended (mem_of_workers hw) (by rw [hsending]; nofun)) hclosed

/-! ### Tasks that stop -/

/-- A task that is told to stop can end, whatever it does and whether there is room in the channel or not. -/
theorem exists_one_ended {before after : List Worker} {w : Worker} (hw : s.workers = before ++ w :: after)
    (hclosed : s.outcome ≠ none) (hstopped : s.stopped = true) :
    ∃ w' : Worker, w'.activity = .ended ∧ Run s { s with workers := before ++ w' :: after } := by
  cases ha : w.activity with
  | reading =>
    have hread := Step.read hw ha
    have hi : (s.raised || w.interrupts s.stopped) = s.raised := by
      rw [hstopped, Worker.interrupts, Bool.not_true, Bool.false_and, Bool.or_false]
    rw [hi] at hread
    refine ⟨w.read s.stopped, ?_, .single hread⟩
    rw [hstopped]
    exact w.activity_read_stopped
  | sending e => exact ⟨_, rfl, .single (.hangUp hw ha hclosed)⟩
  | ended =>
    refine ⟨w, ha, ?_⟩
    rw [← hw]
    exact .refl

theorem exists_rest_ended {ended workers : List Worker} (hw : s.workers = ended ++ workers)
    (he : ∀ w ∈ ended, w.activity = .ended) (hclosed : s.outcome ≠ none) (hstopped : s.stopped = true) :
    ∃ s', Run s s' ∧ s'.IsComplete ∧ s'.outcome = s.outcome ∧ s'.received = s.received := by
  induction workers generalizing s ended with
  | nil =>
    rw [List.append_nil] at hw
    exact ⟨s, .refl, ⟨hstopped, hw ▸ he⟩, rfl, rfl⟩
  | cons w workers ih =>
    obtain ⟨w', hw', hrun⟩ := exists_one_ended hw hclosed hstopped
    have he' : ∀ u ∈ ended ++ [w'], u.activity = .ended :=
      List.forall_mem_append.2 ⟨he, List.forall_mem_singleton.2 hw'⟩
    obtain ⟨s', hrun', hs'⟩ :=
      @ih { s with workers := ended ++ w' :: workers } _ (List.append_cons ..) he' hclosed hstopped
    exact ⟨s', hrun.trans hrun', hs'⟩

/-- Once the consumer has ended, the tasks can stop, and nothing else changes. -/
theorem exists_stopped (hclosed : s.outcome ≠ none) :
    ∃ s', Run s s' ∧ s'.IsComplete ∧ s'.outcome = s.outcome ∧ s'.received = s.received := by
  obtain ⟨s', hrun, hs'⟩ := @exists_rest_ended { s with stopped := true } [] s.workers rfl
    (fun w hw => absurd hw List.not_mem_nil) hclosed rfl
  exact ⟨s', .head (.stop hclosed) hrun, hs'⟩

/-- Once the token is raised, nothing keeps the run from being completed. -/
theorem exists_complete_of_raised (hr : s.raised = true) (ho : s.outcome = none) :
    ∃ s', Run s s' ∧ s'.IsComplete ∧ s'.received = s.received := by
  obtain ⟨s', hrun, hcomplete, -, hreceived⟩ :=
    @exists_stopped { s with outcome := some (.error .cancelled) } (Option.some_ne_none _)
  exact ⟨s', .head (.cancel ho hr) hrun, hcomplete, hreceived⟩

/-! ### All or nothing -/

/-- Sources with different names, and the caller's token raised at any time or never: a complete run is cancelled
if the token was raised before the consumer had ended, and only then. If it is not cancelled, a run without the
token returns the same, and that is the view of all sources, but for the order of the notes. No failure was
received that the sources do not come to by themselves. -/
theorem cancelled_or_whole (sources : List Source) (hnames : (sources.map Source.name).Nodup) (s : Gathering)
    (hrun : LooseRun (start sources) s) (hcomplete : s.IsComplete) :
    (s.returned? = some (.error .cancelled) ↔
      ∃ c, LooseRun (start sources) c ∧ LooseRun c s ∧ c.raised = true ∧ c.outcome = none) ∧
    (s.returned? ≠ some (.error .cancelled) →
      (∃ u, Run (start sources) u ∧ u.IsComplete ∧ u.raised = false ∧ s.returned? = u.returned?) ∧
      (∃ notes, notes.Perm (failureNotes sources) ∧
        s.returned? = (Frame.mergeAll? ((latestFrames sources).map Prod.snd)).map
          fun merged => .ok (merged.conclude notes)) ∧
      FanIn.collect? sources false = (Frame.mergeAll? ((latestFrames sources).map Prod.snd)).map
        fun merged => .ok (merged.conclude (failureNotes sources))) ∧
    s.received.failures.Subperm (sources.filterMap Source.failure?) := by
  have hclosed := closed_of_isComplete hrun hcomplete
  refine ⟨⟨fun hcancelled => ?_, ?_⟩, fun hne => ?_, failures_subperm hrun⟩
  · cases decided hrun hclosed with
    | cancelled _ hc hs hr hopen => exact ⟨_, hc, hs, hr, hopen⟩
    | closed ho =>
      rw [returned?_eq_cancelled_iff, ho] at hcancelled
      cases hcancelled
  · rintro ⟨c, -, hs, hr, hopen⟩
    have houtcome := (outcome_of_raised hs hr hopen).2.resolve_left hclosed
    exact returned?_eq_cancelled_iff.2 houtcome
  · cases decided hrun hclosed with
    | cancelled ho => exact absurd (returned?_eq_cancelled_iff.2 ho) hne
    | @closed u _ hu hc hr hsame hreceived =>
      have hreturned : s.returned? = u.returned? := by rw [returned?, returned?, hsame, hreceived]
      obtain ⟨history, h, hhistory⟩ := exists_history hu hc hr
      obtain ⟨notes, hnotes, hview⟩ := FanIn.view?_of_interleaves h hnames
      have hinterrupts := uninterrupted_of_run hu hr fun w hw => Worker.uninterrupted_of_ended (hc.ended w hw)
      refine ⟨⟨u, hu, hc, hr, hreturned⟩, ⟨notes, hnotes, ?_⟩, FanIn.collect?_eq hnames ?_⟩
      · rw [hreturned, hhistory, hview, Option.map_map]; rfl
      · rw [List.any_eq_false]
        intro source hsource
        rw [hinterrupts source hsource]
        exact Bool.false_ne_true

/-- What the first source sends first may be received first. -/
theorem exists_received_first {source : Source} {rest : List Source} {e : SourceEvent}
    (hi : source.interrupts = false) (he : source.events.head? = some e) :
    ∃ s, Run (start (source :: rest)) s ∧ s.outcome = none ∧ s.received = FanIn.receive {} e := by
  obtain ⟨l, hl⟩ := List.head?_eq_some_iff.1 he
  let first : Worker := { name := source.name, stream := { body := source.body } }
  obtain ⟨w', -, -, hrun⟩ := @exists_received [] (start rest).workers first e l {} hi hl
  exact ⟨_, hrun, rfl, rfl⟩

/-- The token is raised once a frame was received, and after the channel was closed. -/
theorem cancelled_or_whole_twoSources :
    (twoSources.map Source.name).Nodup ∧
    (∃ s, LooseRun (start twoSources) s ∧ s.IsComplete ∧ s.received.latest.entries.map Prod.fst = ["a"] ∧
      s.returned? = some (.error .cancelled)) ∧
    (∃ s view, LooseRun (start twoSources) s ∧ s.IsComplete ∧ s.raised = true ∧ s.returned? = some (.ok view) ∧
      view.errors = ["a: stream ended before the final frame"]) := by
  have hnames : (twoSources.map Source.name).Nodup := by decide
  have hinterrupts : ∀ source ∈ twoSources, source.interrupts = false := by decide +kernel
  refine ⟨hnames, ?_, ?_⟩
  · have hfirst : (twoSources.head?.bind fun source => source.events.head?).map
        (fun e => (FanIn.receive {} e).latest.entries.map Prod.fst) = some ["a"] := by decide +kernel
    obtain ⟨e, he, hkeys⟩ := Option.map_eq_some_iff.1 hfirst
    obtain ⟨c, hc, hopen, hreceived⟩ : ∃ c, Run (start twoSources) c ∧ c.outcome = none ∧
        c.received = FanIn.receive {} e := exists_received_first (hinterrupts _ List.mem_cons_self) he
    have hraised : LooseRun (start twoSources) { c with raised := true } := Run.loose (hc.tail .raise)
    obtain ⟨s, hrest, hcomplete, hsame⟩ := @exists_complete_of_raised { c with raised := true } rfl hopen
    have hrun := hraised.trans (Run.loose hrest)
    have hcancelled := (cancelled_or_whole twoSources hnames s hrun hcomplete).1
    refine ⟨s, hrun, hcomplete, ?_, hcancelled.2 ⟨_, hraised, Run.loose hrest, rfl, hopen⟩⟩
    rw [hsame, hreceived, hkeys]
  · obtain ⟨s, hrun, hcomplete, -, hreturned⟩ := exists_run (.flatten (twoSources.map Source.events)) hinterrupts
    have hrun' : LooseRun (start twoSources) { s with raised := true } := Run.loose (hrun.tail .raise)
    have hcomplete' : IsComplete { s with raised := true } := ⟨hcomplete.stopped, hcomplete.ended⟩
    have hne : ({ s with raised := true } : Gathering).returned? ≠ some (.error .cancelled) := by
      rw [show returned? { s with raised := true } = s.returned? from rfl, hreturned]
      simp
    obtain ⟨-, ⟨notes, hnotes, hwhole⟩, hcollect⟩ :=
      (cancelled_or_whole twoSources hnames _ hrun' hcomplete').2.1 hne
    have hfailures : failureNotes twoSources = ["a: stream ended before the final frame"] := by decide +kernel
    have herrors : (FanIn.collect? twoSources false).map (fun result => result.toOption.map Frame.errors) =
        some (some ["a: stream ended before the final frame"]) := by decide +kernel
    rw [hfailures, List.perm_singleton] at hnotes
    rw [hnotes, ← hfailures, ← hcollect] at hwhole
    obtain ⟨result, hresult, hview⟩ := Option.map_eq_some_iff.1 herrors
    cases result with
    | error e => cases hview
    | ok view => exact ⟨_, view, hrun', hcomplete', rfl, hwhole.trans hresult, Option.some.inj hview⟩

end Gathering

end ClusterMetrics
