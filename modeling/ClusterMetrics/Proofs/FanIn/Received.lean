import ClusterMetrics.FanIn
import ClusterMetrics.Proofs.KeyMap
import ClusterMetrics.Proofs.MergedFrames

/-! # What a sequence of events comes to

Of every name the last frame is kept, and every failure is noted in its turn. The view merges the frames that
were kept, and the notes come behind its errors. -/

namespace ClusterMetrics

/-! ### Parts of events -/

namespace SourceEvent

/-- The frame of this source that the event brings. -/
def frameOf? (name : String) : SourceEvent → Option Frame
  | .frame source f => if source = name then some f else none
  | .failed .. => none

def failure? : SourceEvent → Option (String × StreamError)
  | .frame .. => none
  | .failed source e => some (source, e)

end SourceEvent

namespace Source
variable {s : Source} {name : String}

/-- The last frame that the source delivers. -/
def last? (s : Source) : Option Frame := s.outcome.delivered.getLast?

/-- Why the source fails, if it does. -/
def failure? (s : Source) : Option (String × StreamError) :=
  match s.outcome.result with
  | .ok _ => none
  | .error e => if e.isCancelled then none else some (s.name, e)

theorem filterMap_frameOf?_self (s : Source) :
    s.events.filterMap (SourceEvent.frameOf? s.name) = s.outcome.delivered := by
  have hframes : (s.outcome.delivered.map (SourceEvent.frame s.name)).filterMap (SourceEvent.frameOf? s.name) =
      s.outcome.delivered := by
    rw [List.filterMap_map]
    have hself : SourceEvent.frameOf? s.name ∘ SourceEvent.frame s.name = some := by
      funext f
      exact if_pos rfl
    rw [hself, List.filterMap_some]
  rw [events, List.filterMap_append, hframes]
  cases s.outcome.result with
  | ok n => exact List.append_nil _
  | error e => cases he : e.isCancelled <;> simp [SourceEvent.frameOf?, he]

theorem filterMap_frameOf?_of_ne (h : s.name ≠ name) : s.events.filterMap (SourceEvent.frameOf? name) = [] := by
  refine List.filterMap_eq_nil_iff.2 fun e he => ?_
  rcases List.mem_append.1 he with he | he
  · obtain ⟨f, -, rfl⟩ := List.mem_map.1 he
    exact if_neg h
  · cases hr : s.outcome.result with
    | ok n => rw [hr] at he; cases he
    | error e' =>
      rw [hr] at he
      dsimp only at he
      split at he
      · cases he
      · rw [List.mem_singleton.1 he]; rfl

theorem filterMap_failure? (s : Source) : s.events.filterMap SourceEvent.failure? = s.failure?.toList := by
  have hframes : (s.outcome.delivered.map (SourceEvent.frame s.name)).filterMap SourceEvent.failure? = [] := by
    refine List.filterMap_eq_nil_iff.2 fun e he => ?_
    obtain ⟨f, -, rfl⟩ := List.mem_map.1 he
    rfl
  rw [events, List.filterMap_append, hframes, List.nil_append, failure?]
  cases s.outcome.result with
  | ok n => rfl
  | error e => cases he : e.isCancelled <;> simp [SourceEvent.failure?, he]

theorem filterMap_failure?_flatMap (sources : List Source) :
    (sources.flatMap events).filterMap SourceEvent.failure? = sources.filterMap failure? := by
  induction sources with
  | nil => rfl
  | cons s sources ih =>
    rw [List.flatMap_cons, List.filterMap_append, ih, filterMap_failure?]
    cases hf : s.failure? with
    | none => rw [List.filterMap_cons_none hf]; rfl
    | some failure => rw [List.filterMap_cons_some hf]; rfl

end Source

/-! ### Events in sequence -/

namespace FanIn

theorem get?_foldl_receive (es : List SourceEvent) (s : FanIn) (name : String) :
    (es.foldl receive s).latest.get? name =
      (es.filterMap (SourceEvent.frameOf? name)).getLast?.or (s.latest.get? name) := by
  induction es generalizing s with
  | nil => rfl
  | cons e es ih =>
    rw [List.foldl_cons, ih]
    cases e with
    | failed source e => rfl
    | frame source f =>
      rw [receive, KeyMap.get?_insert]
      by_cases hs : source = name
      · have hsome : SourceEvent.frameOf? name (.frame source f) = some f := if_pos hs
        rw [if_pos hs.symm, List.filterMap_cons_some hsome, List.getLast?_cons]
        cases (es.filterMap (SourceEvent.frameOf? name)).getLast? <;> rfl
      · have hnone : SourceEvent.frameOf? name (.frame source f) = none := if_neg hs
        rw [if_neg (Ne.symm hs), List.filterMap_cons_none hnone]

theorem failures_foldl_receive (es : List SourceEvent) (s : FanIn) :
    (es.foldl receive s).failures = s.failures ++ es.filterMap SourceEvent.failure? := by
  induction es generalizing s with
  | nil => exact (List.append_nil _).symm
  | cons e es ih =>
    rw [List.foldl_cons, ih]
    cases e with
    | frame source f => rfl
    | failed source e => exact List.append_assoc ..

end FanIn

/-! ### The view -/

/-- The frame as the final one, with notes behind its errors. -/
def Frame.conclude (f : Frame) (notes : List String) : Frame :=
  { f with errors := f.errors ++ notes, isFinal := true }

namespace FanIn

def note (failure : String × StreamError) : String := s!"{failure.1}: {failure.2.message}"

theorem foldlM_absorb? (entries : List (String × Frame)) (v : ClusterView) :
    (entries.foldlM (fun (v : ClusterView) entry => v.absorb? entry.2) v).map ClusterView.frame =
      (entries.map Prod.snd).foldlM Frame.merge? v.frame := by
  induction entries generalizing v with
  | nil => rfl
  | cons entry entries ih =>
    rw [List.foldlM_cons, List.map_cons, List.foldlM_cons, ClusterView.absorb?]
    cases v.frame.merge? entry.2 with
    | none => rfl
    | some f => exact ih ⟨f, v.merged + 1⟩

theorem frame_foldl_recordError (failures : List (String × StreamError)) (v : ClusterView) :
    (failures.foldl (fun v failure => v.recordError failure.1 failure.2.message) v).frame =
      { v.frame with errors := v.frame.errors ++ failures.map note } := by
  induction failures generalizing v with
  | nil => rw [List.map_nil, List.append_nil]; rfl
  | cons failure failures ih =>
    rw [List.foldl_cons, ih, List.map_cons, List.append_cons]; rfl

theorem view?_eq (s : FanIn) :
    s.view? = (Frame.mergeAll? (s.latest.entries.map Prod.snd)).map (·.conclude (s.failures.map note)) := by
  have h := foldlM_absorb? s.latest.entries {}
  rw [view?, Frame.mergeAll?, ← h]
  cases s.latest.entries.foldlM (fun (v : ClusterView) entry => v.absorb? entry.2) {} with
  | none => rfl
  | some v =>
    have hnoted := frame_foldl_recordError s.failures v
    simp only [Option.bind_eq_bind, Option.bind_some, Option.pure_def, hnoted]
    rfl

end FanIn

end ClusterMetrics
