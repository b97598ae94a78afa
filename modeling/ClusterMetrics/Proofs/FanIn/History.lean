import ClusterMetrics.Proofs.FanIn.Interleaving
import ClusterMetrics.Proofs.FanIn.Steps

/-! # What a run receives

As long as the caller's token is not raised, what was received, what is in the channel and what the tasks have
still to send are together one interleaving of what the sources send (`Gathering.Gathered`). So the consumer of
a complete run has received such an interleaving (`Gathering.exists_history`), and of every interleaving there
is a run that receives it (`Gathering.exists_run`). -/

namespace ClusterMetrics

namespace Stream.Outcome

/-- What a task sends when its stream comes to this. -/
def events (o : Outcome) (name : String) : List SourceEvent :=
  o.delivered.map (.frame name) ++
    match o.result with
    | .ok _ => []
    | .error e => if e.isCancelled then [] else [.failed name e]

def isInterrupted (o : Outcome) : Bool :=
  match o.result with
  | .ok _ => false
  | .error e => e.isCancelled

end Stream.Outcome

namespace Worker
variable {w : Worker} {e : SourceEvent}

/-- What the task has still to send. -/
def remaining (w : Worker) : List SourceEvent :=
  match w.activity with
  | .reading => w.stream.runAll.events w.name
  | .sending (.frame source f) => .frame source f :: w.stream.runAll.events w.name
  | .sending (.failed source e) => [.failed source e]
  | .ended => []

theorem remaining_of_ended (h : w.activity = .ended) : w.remaining = [] := by rw [remaining, h]

theorem remaining_sent (h : w.activity = .sending e) : w.remaining = e :: (w.sent e).remaining := by
  cases e <;> simp only [remaining, sent, h]

theorem sending_of_remaining {l : List SourceEvent} (h : w.activity ≠ .reading) (hl : w.remaining = e :: l) :
    w.activity = .sending e := by
  cases ha : w.activity with
  | reading => exact absurd ha h
  | sending e' =>
    rw [remaining_sent ha] at hl
    rw [(List.cons.inj hl).1]
  | ended => rw [remaining_of_ended ha] at hl; cases hl

theorem ended_of_remaining (h : w.activity ≠ .reading) (hl : w.remaining = []) : w.activity = .ended := by
  cases ha : w.activity with
  | reading => exact absurd ha h
  | sending e => rw [remaining_sent ha] at hl; cases hl
  | ended => rfl

theorem remaining_read (h : w.activity = .reading) (hi : w.interrupts false = false) :
    (w.read false).remaining = w.remaining := by
  rw [remaining.eq_def w, h]
  rcases hn : w.stream.next false with ⟨e | _ | f, s'⟩
  · have he : e.isCancelled = false := by simpa only [interrupts, hn, Bool.not_false, Bool.true_and] using hi
    rw [Stream.runAll_of_error hn]
    simp [remaining, read, hn, Stream.Outcome.events, he]
  · rw [Stream.runAll_of_none hn]
    simp [remaining, read, hn, Stream.Outcome.events]
  · rw [Stream.runAll_of_some hn]
    simp [remaining, read, hn, Stream.Outcome.events]

/-- The task reads no further once it has failed. -/
def Uninterrupted (w : Worker) : Prop :=
  match w.activity with
  | .reading | .sending (.frame ..) => w.stream.runAll.isInterrupted = false
  | .sending (.failed ..) | .ended => True

theorem Uninterrupted.interrupts (hu : w.Uninterrupted) (h : w.activity = .reading) :
    w.interrupts false = false := by
  rw [Uninterrupted, h] at hu
  rcases hn : w.stream.next false with ⟨e | _ | f, s'⟩
  · rw [Stream.runAll_of_error hn] at hu
    rw [Worker.interrupts, hn]; exact hu
  · rw [Worker.interrupts, hn]; rfl
  · rw [Worker.interrupts, hn]; rfl

theorem Uninterrupted.read (hu : w.Uninterrupted) (h : w.activity = .reading) : (w.read false).Uninterrupted := by
  rw [Uninterrupted, h] at hu
  rcases hn : w.stream.next false with ⟨e | _ | f, s'⟩
  · rw [Uninterrupted, Worker.read, hn]
    cases he : e.isCancelled <;> simp [he]
  · rw [Uninterrupted, Worker.read, hn]; trivial
  · rw [Stream.runAll_of_some hn] at hu
    rw [Uninterrupted, Worker.read, hn]; exact hu

theorem Uninterrupted.sent (hu : w.Uninterrupted) (h : w.activity = .sending e) : (w.sent e).Uninterrupted := by
  rw [Uninterrupted, h] at hu
  cases e with
  | frame => exact hu
  | failed => trivial

theorem read_activity_ne (w : Worker) : (w.read false).activity ≠ .reading := by
  rcases hn : w.stream.next false with ⟨e | _ | f, s'⟩
  · cases he : e.isCancelled <;> simp [Worker.read, hn, he]
  · simp [Worker.read, hn]
  · simp [Worker.read, hn]

end Worker

namespace Gathering
open Relation
variable {s s' : Gathering} {sources : List Source}

theorem returned?_of_ok (h : s.outcome = some (.ok ())) : s.returned? = s.received.view?.map .ok := by
  rw [returned?, h]

theorem mem_of_workers {before after : List Worker} {w : Worker} (hw : s.workers = before ++ w :: after) :
    w ∈ s.workers := hw ▸ List.mem_append_right _ List.mem_cons_self

/-! ### The token of the caller -/

theorem Step.raised_mono (h : Step s s') (hr : s'.raised = false) : s.raised = false := by
  cases h with
  | raise => cases hr
  | read => exact (Bool.or_eq_false_iff.1 hr).1
  | send | hangUp | receive | cancel | close | stop => exact hr

/-! ### The invariant -/

/-- What holds as long as the token is not raised. -/
structure Gathered (sources : List Source) (s : Gathering) : Prop where
  history : ∃ history, s.received = history.foldl FanIn.receive {} ∧
    ∀ rest, Interleaves (s.workers.map Worker.remaining) rest →
      Interleaves (sources.map Source.events) (history ++ s.channel ++ rest)
  closed : s.outcome ≠ none →
    s.outcome = some (.ok ()) ∧ s.channel = [] ∧ ∀ w ∈ s.workers, w.activity = .ended
  running : s.outcome = none → s.stopped = false

theorem remaining_start (sources : List Source) :
    (start sources).workers.map Worker.remaining = sources.map Source.events := by
  rw [start, List.map_map]; rfl

theorem gathered_start (sources : List Source) : Gathered sources (start sources) := by
  refine ⟨⟨[], rfl, fun rest h => ?_⟩, fun h => absurd rfl h, fun _ => rfl⟩
  rwa [remaining_start] at h

/-- Once the channel is closed, no task reads or sends. -/
theorem Gathered.open_of_not_ended (hg : Gathered sources s) {w : Worker} (hw : w ∈ s.workers)
    (h : w.activity ≠ .ended) : s.outcome = none := by
  by_cases ho : s.outcome = none
  · exact ho
  · exact absurd ((hg.closed ho).2.2 w hw) h

theorem Gathered.step (hg : Gathered sources s) (h : Step s s') (hr : s'.raised = false) :
    Gathered sources s' := by
  obtain ⟨history, hreceived, hrest⟩ := hg.history
  cases h with
  | raise => cases hr
  | @read before after w hw hreading =>
    have hopen := hg.open_of_not_ended (mem_of_workers hw) (by rw [hreading]; nofun)
    have hi := (Bool.or_eq_false_iff.1 hr).2
    rw [hg.running hopen] at hi
    refine ⟨⟨history, hreceived, fun rest h => hrest rest ?_⟩, fun ho => absurd hopen ho, hg.running⟩
    rw [hg.running hopen] at h
    rwa [hw, List.map_append, List.map_cons, ← Worker.remaining_read hreading hi, ← List.map_cons,
      ← List.map_append]
  | @send before after w e hw hsending hopen hroom =>
    refine ⟨⟨history, hreceived, fun rest h => ?_⟩, fun ho => absurd hopen ho, hg.running⟩
    have h' : Interleaves (s.workers.map Worker.remaining) (e :: rest) := by
      rw [hw, List.map_append, List.map_cons, Worker.remaining_sent hsending]
      rw [List.map_append, List.map_cons] at h
      exact .cons h
    have hall := hrest (e :: rest) h'
    rwa [List.append_cons, List.append_assoc history] at hall
  | @hangUp before after w e hw hsending hclosed =>
    exact absurd (hg.open_of_not_ended (mem_of_workers hw) (by rw [hsending]; nofun)) hclosed
  | @receive e rest hopen _ hc =>
    refine ⟨⟨history ++ [e], ?_, fun rest' h => ?_⟩, fun ho => absurd hopen ho, hg.running⟩
    · rw [List.foldl_append, ← hreceived]; rfl
    · have hall := hrest rest' h
      rwa [hc, List.append_cons] at hall
  | cancel _ hraised => rw [show s.raised = false from hr] at hraised; cases hraised
  | close hopen _ hc hended => exact ⟨⟨history, hreceived, hrest⟩, fun _ => ⟨rfl, hc, hended⟩, nofun⟩
  | stop hclosed => exact ⟨⟨history, hreceived, hrest⟩, hg.closed, fun ho => absurd ho hclosed⟩

theorem gathered_of_run (h : Run (start sources) s) (hr : s.raised = false) : Gathered sources s := by
  induction h with
  | refl => exact gathered_start sources
  | tail _ hstep ih => exact (ih (hstep.raised_mono hr)).step hstep hr

/-- A complete run has received all that the sources send, and returns what that comes to. -/
theorem exists_history (h : Run (start sources) s) (hc : s.IsComplete) (hr : s.raised = false) :
    ∃ history, Interleaves (sources.map Source.events) history ∧
      s.returned? = (history.foldl FanIn.receive {}).view?.map .ok := by
  have hg := gathered_of_run h hr
  have ho : s.outcome ≠ none := fun ho => Bool.false_ne_true ((hg.running ho).symm.trans hc.stopped)
  obtain ⟨hok, hchannel, hended⟩ := hg.closed ho
  obtain ⟨history, hreceived, hrest⟩ := hg.history
  have hnil : Interleaves (s.workers.map Worker.remaining) [] := by
    refine .nil fun l hl => ?_
    obtain ⟨w, hw, rfl⟩ := List.mem_map.1 hl
    exact Worker.remaining_of_ended (hended w hw)
  have hall := hrest [] hnil
  rw [hchannel, List.append_nil, List.append_nil] at hall
  exact ⟨history, hall, by rw [returned?_of_ok hok, hreceived]⟩

/-! ### Runs that receive a given interleaving -/

/-- Nothing is on its way. -/
def quiet (workers : List Worker) (received : FanIn) : Gathering := { workers, received }

section
variable {before after : List Worker} {w : Worker} {e : SourceEvent} {l : List SourceEvent} {received : FanIn}

theorem step_read (hu : w.Uninterrupted) (h : w.activity = .reading) :
    Step (quiet (before ++ w :: after) received) (quiet (before ++ w.read false :: after) received) := by
  have hstep := Step.read (s := quiet (before ++ w :: after) received) rfl h
  have hi : (false || w.interrupts false) = false := hu.interrupts h
  dsimp only [quiet] at hstep ⊢
  rwa [hi] at hstep

/-- A task can get on until it has nothing to read at the moment. -/
theorem exists_not_reading (hu : w.Uninterrupted) :
    ∃ w' : Worker, w'.activity ≠ .reading ∧ w'.remaining = w.remaining ∧ w'.Uninterrupted ∧
      Run (quiet (before ++ w :: after) received) (quiet (before ++ w' :: after) received) := by
  by_cases ha : w.activity = .reading
  · have hr := Worker.remaining_read ha (hu.interrupts ha)
    exact ⟨w.read false, w.read_activity_ne, hr, hu.read ha, .single (step_read hu ha)⟩
  · exact ⟨w, ha, rfl, hu, .refl⟩

/-- What a task has to send first can be received next. -/
theorem exists_received (hu : w.Uninterrupted) (hl : w.remaining = e :: l) :
    ∃ w' : Worker, w'.remaining = l ∧ w'.Uninterrupted ∧
      Run (quiet (before ++ w :: after) received) (quiet (before ++ w' :: after) (received.receive e)) := by
  obtain ⟨u, hne, hr, hu', hrun⟩ := @exists_not_reading before after w received hu
  have ha := Worker.sending_of_remaining hne (hr.trans hl)
  rw [hl, Worker.remaining_sent ha] at hr
  refine ⟨u.sent e, (List.cons.inj hr).2, hu'.sent ha, hrun.trans ?_⟩
  have hsend := Step.send (s := quiet (before ++ u :: after) received) rfl ha rfl (show 0 < capacity by decide)
  exact .head hsend (.single (.receive rfl rfl rfl))

/-- A task that has nothing to send can end. -/
theorem exists_ended (hu : w.Uninterrupted) (hl : w.remaining = []) :
    ∃ w' : Worker, w'.activity = .ended ∧
      Run (quiet (before ++ w :: after) received) (quiet (before ++ w' :: after) received) := by
  obtain ⟨w', hne, hr, -, hrun⟩ := @exists_not_reading before after w received hu
  exact ⟨w', Worker.ended_of_remaining hne (hr.trans hl), hrun⟩

end

/-- Tasks that have nothing to send can end one after the other. -/
theorem exists_all_ended {workers ended : List Worker} {received : FanIn}
    (hu : ∀ w ∈ workers, w.Uninterrupted) (hl : ∀ w ∈ workers, w.remaining = [])
    (he : ∀ w ∈ ended, w.activity = .ended) :
    ∃ ended' : List Worker, (∀ w ∈ ended', w.activity = .ended) ∧
      Run (quiet (ended ++ workers) received) (quiet ended' received) := by
  induction workers generalizing ended with
  | nil => exact ⟨ended, he, by rw [List.append_nil]; exact .refl⟩
  | cons w workers ih =>
    obtain ⟨huw, hu⟩ := List.forall_mem_cons.1 hu
    obtain ⟨hlw, hl⟩ := List.forall_mem_cons.1 hl
    obtain ⟨w', hw', hrun⟩ := @exists_ended ended workers w received huw hlw
    have he' : ∀ u ∈ ended ++ [w'], u.activity = .ended :=
      List.forall_mem_append.2 ⟨he, List.forall_mem_singleton.2 hw'⟩
    obtain ⟨ended', hended, hrun'⟩ := ih hu hl he'
    rw [← List.append_cons] at hrun'
    exact ⟨ended', hended, hrun.trans hrun'⟩

theorem exists_run_quiet {ls : List (List SourceEvent)} {es : List SourceEvent} (h : Interleaves ls es)
    {workers : List Worker} {received : FanIn} (hls : ls = workers.map Worker.remaining)
    (hu : ∀ w ∈ workers, w.Uninterrupted) :
    ∃ s, Run (quiet workers received) s ∧ s.IsComplete ∧ s.raised = false ∧
      s.returned? = (es.foldl FanIn.receive received).view?.map .ok := by
  induction h generalizing workers received with
  | nil h =>
    have hl : ∀ w ∈ workers, w.remaining = [] := fun w hw => h _ (hls ▸ List.mem_map_of_mem hw)
    obtain ⟨ended, hended, hrun⟩ := @exists_all_ended workers [] received hu hl
      fun w hw => absurd hw List.not_mem_nil
    have hclose := Step.close (s := quiet ended received) rfl rfl rfl hended
    have hstop := Step.stop (s := { quiet ended received with outcome := some (.ok ()) })
      (Option.some_ne_none _)
    exact ⟨_, (hrun.tail hclose).tail hstop, ⟨rfl, hended⟩, rfl, returned?_of_ok rfl⟩
  | @cons before after l es e h ih =>
    obtain ⟨before', rest, hworkers, hbefore, hrest⟩ := List.map_eq_append_iff.1 hls.symm
    obtain ⟨w, after', rfl, hl, hafter⟩ := List.map_eq_cons_iff.1 hrest
    subst hworkers hbefore hafter
    obtain ⟨hub, huw⟩ := List.forall_mem_append.1 hu
    obtain ⟨huw, hua⟩ := List.forall_mem_cons.1 huw
    obtain ⟨w', rfl, huw', hrun⟩ := @exists_received before' after' w e l received huw hl
    have hu' : ∀ u ∈ before' ++ w' :: after', u.Uninterrupted :=
      List.forall_mem_append.2 ⟨hub, List.forall_mem_cons.2 ⟨huw', hua⟩⟩
    obtain ⟨s, hrun', hs⟩ := @ih _ (received.receive e) (by rw [List.map_append, List.map_cons]) hu'
    exact ⟨s, hrun.trans hrun', hs⟩

/-- Sources that do not raise the token may be received in any interleaving. -/
theorem exists_run {history : List SourceEvent} (h : Interleaves (sources.map Source.events) history)
    (hi : ∀ source ∈ sources, source.interrupts = false) :
    ∃ s, Run (start sources) s ∧ s.IsComplete ∧ s.raised = false ∧
      s.returned? = (history.foldl FanIn.receive {}).view?.map .ok := by
  refine exists_run_quiet h (remaining_start sources).symm fun w hw => ?_
  obtain ⟨source, hsource, rfl⟩ := List.mem_map.1 hw
  exact hi source hsource

end Gathering

end ClusterMetrics
