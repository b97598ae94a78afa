import ClusterMetrics.Proofs.FanIn.History
import ClusterMetrics.Proofs.FanIn.Received

/-! # The order of arrival makes no difference

What a name leads to in the end is the last frame of a source with that name (`FanIn.exists_source_of_latest`).
If all names differ, that is one frame, whenever it arrives. Main statement: all complete runs return one view,
but for the order of the notes (`Gathering.returned?_eq`). -/

namespace ClusterMetrics

/-- The last frame of every source that delivers one, in the order of the names. -/
def latestFrames (sources : List Source) : List (String × Frame) :=
  (sources.filterMap fun s => s.last?.map (s.name, ·)).mergeSort fun p q => p.1 ≤ q.1

/-- One note for each source that fails. -/
def failureNotes (sources : List Source) : List String := (sources.filterMap Source.failure?).map FanIn.note

section
variable {sources : List Source} {history : List SourceEvent} {name : String} {f : Frame}

theorem mem_latestFrames : (name, f) ∈ latestFrames sources ↔ ∃ s ∈ sources, s.name = name ∧ s.last? = some f := by
  rw [latestFrames, List.mem_mergeSort, List.mem_filterMap]
  constructor
  · rintro ⟨s, hs, h⟩
    obtain ⟨g, hg, he⟩ := Option.map_eq_some_iff.1 h
    obtain ⟨hname, rfl⟩ := Prod.mk.inj he
    exact ⟨s, hs, hname, hg⟩
  · rintro ⟨s, hs, rfl, hf⟩
    exact ⟨s, hs, by rw [hf, Option.map_some]⟩

theorem keySorted_latestFrames (hnames : (sources.map Source.name).Nodup) : KeySorted (latestFrames sources) := by
  have hsorted : (latestFrames sources).Pairwise fun p q => p.1 ≤ q.1 := pairwise_mergeSort_le Prod.fst _
  have hnodup : (latestFrames sources).Pairwise fun p q => p.1 ≠ q.1 := by
    refine ((List.mergeSort_perm _ _).pairwise_iff Ne.symm).2 ?_
    refine List.Pairwise.filterMap _ ?_ (List.pairwise_map.1 hnames)
    intro s s' hne p hp q hq
    obtain ⟨g, -, rfl⟩ := Option.map_eq_some_iff.1 hp
    obtain ⟨g', -, rfl⟩ := Option.map_eq_some_iff.1 hq
    exact hne
  refine List.Pairwise.imp₂ (fun p q hle hne => ?_) hsorted hnodup
  exact String.not_le.1 fun hge => hne (String.le_antisymm hle hge)

namespace FanIn

theorem get?_latest (history : List SourceEvent) (name : String) :
    (history.foldl receive {}).latest.get? name = (history.filterMap (SourceEvent.frameOf? name)).getLast? := by
  rw [get?_foldl_receive, KeyMap.get?_empty, Option.or_none]

section
variable (h : Interleaves (sources.map Source.events) history)
include h

theorem interleaves_frames (name : String) :
    Interleaves (sources.map fun s => s.events.filterMap (SourceEvent.frameOf? name))
      (history.filterMap (SourceEvent.frameOf? name)) := by
  have hf := h.filterMap (SourceEvent.frameOf? name)
  rwa [List.map_map] at hf

/-- What is kept under a name is the last frame of a source with that name. -/
theorem exists_source_of_latest (hf : (history.foldl receive {}).latest.get? name = some f) :
    ∃ s ∈ sources, s.name = name ∧ s.last? = some f := by
  rw [get?_latest] at hf
  obtain ⟨l, hl, hlast⟩ := (interleaves_frames h name).exists_getLast? hf
  obtain ⟨s, hs, rfl⟩ := List.mem_map.1 hl
  by_cases hname : s.name = name
  · subst hname
    rw [s.filterMap_frameOf?_self] at hlast
    exact ⟨s, hs, rfl, hlast⟩
  · rw [Source.filterMap_frameOf?_of_ne hname] at hlast
    cases hlast

/-- If no other source has its name, the last frame of a source is kept. -/
theorem get?_latest_of_unique {before after : List Source} {s : Source} (hs : sources = before ++ s :: after)
    (hb : ∀ s' ∈ before, s'.name ≠ s.name) (ha : ∀ s' ∈ after, s'.name ≠ s.name) :
    (history.foldl receive {}).latest.get? s.name = s.last? := by
  have hi := interleaves_frames h s.name
  rw [hs, List.map_append, List.map_cons, s.filterMap_frameOf?_self] at hi
  have hempty : ∀ l : List Source, (∀ s' ∈ l, s'.name ≠ s.name) →
      ∀ fs ∈ l.map fun s' => s'.events.filterMap (SourceEvent.frameOf? s.name), fs = [] := by
    intro l hl fs hfs
    obtain ⟨s', hs', rfl⟩ := List.mem_map.1 hfs
    exact Source.filterMap_frameOf?_of_ne (hl s' hs')
  rw [get?_latest, hi.eq_of_empty (hempty before hb) (hempty after ha), Source.last?]

theorem entries_latest (hnames : (sources.map Source.name).Nodup) :
    (history.foldl receive {}).latest.entries = latestFrames sources := by
  refine Entries.ext_mem (KeyMap.sorted _) (keySorted_latestFrames hnames) fun p => ?_
  rw [show p = (p.1, p.2) from rfl, KeyMap.mem_entries_iff, mem_latestFrames]
  constructor
  · exact exists_source_of_latest h
  · rintro ⟨s, hs, hname, hlast⟩
    obtain ⟨before, after, rfl⟩ := List.append_of_mem hs
    rw [List.map_append, List.map_cons] at hnames
    have hs : s.name ∉ before.map Source.name ++ after.map Source.name :=
      (List.nodup_cons.1 (List.perm_middle.nodup_iff.1 hnames)).1
    rw [← hname, get?_latest_of_unique h rfl (fun s' hs' he => ?_) (fun s' hs' he => ?_), hlast]
    · exact hs (he ▸ List.mem_append_left _ (List.mem_map_of_mem hs'))
    · exact hs (he ▸ List.mem_append_right _ (List.mem_map_of_mem hs'))

theorem failures_perm : (history.foldl receive {}).failures.Perm (sources.filterMap Source.failure?) := by
  rw [failures_foldl_receive]
  have hp := h.perm_flatten.filterMap SourceEvent.failure?
  rwa [← List.flatMap_def, Source.filterMap_failure?_flatMap] at hp

/-- The view, but for the order of the notes. -/
theorem view?_of_interleaves (hnames : (sources.map Source.name).Nodup) :
    ∃ notes, notes.Perm (failureNotes sources) ∧
      (history.foldl receive {}).view? =
        (Frame.mergeAll? ((latestFrames sources).map Prod.snd)).map (·.conclude notes) := by
  refine ⟨_, (failures_perm h).map note, ?_⟩
  rw [view?_eq, entries_latest h hnames]

end

theorem collect?_eq (hnames : (sources.map Source.name).Nodup) (hi : sources.any Source.interrupts = false) :
    collect? sources false = (Frame.mergeAll? ((latestFrames sources).map Prod.snd)).map
      fun merged => .ok (merged.conclude (failureNotes sources)) := by
  have h := Interleaves.flatten (sources.map Source.events)
  rw [← List.flatMap_def] at h
  rw [collect?, hi, Bool.or_self, if_neg Bool.false_ne_true, view?_eq, entries_latest h hnames,
    failures_foldl_receive, List.nil_append, Source.filterMap_failure?_flatMap, Option.map_map]
  rfl

end FanIn

end

namespace Gathering

/-- Sources with different names: a complete run during which the token is not raised returns the merge of
their last frames in the order of the names, with one note for each that fails; reading the sources one after
the other comes to the same. -/
theorem returned?_eq (sources : List Source) (hnames : (sources.map Source.name).Nodup) :
    (∀ s, Run (start sources) s → s.IsComplete → s.raised = false →
      ∃ notes, notes.Perm (failureNotes sources) ∧
        s.returned? = (Frame.mergeAll? ((latestFrames sources).map Prod.snd)).map
          fun merged => .ok (merged.conclude notes)) ∧
    (sources.any Source.interrupts = false →
      FanIn.collect? sources false = (Frame.mergeAll? ((latestFrames sources).map Prod.snd)).map
        fun merged => .ok (merged.conclude (failureNotes sources))) := by
  refine ⟨fun s hrun hcomplete hraised => ?_, FanIn.collect?_eq hnames⟩
  obtain ⟨history, h, hreturned⟩ := exists_history hrun hcomplete hraised
  obtain ⟨notes, hnotes, hview⟩ := FanIn.view?_of_interleaves h hnames
  exact ⟨notes, hnotes, by rw [hreturned, hview, Option.map_map]; rfl⟩

/-- One source breaks off after its first frame, one ends with its second. -/
def twoSources : List Source :=
  [⟨"a", [.bytes (utf8Bytes "\x7b\"hosts\":[\"y\"]\x7d ["), .pending]⟩,
    ⟨"b", [.bytes (utf8Bytes "\x7b\"hosts\":[\"z\"]\x7d\x7b\"hosts\":[\"x\"],\"final\":true\x7d")]⟩]

theorem returned?_twoSources :
    (twoSources.map Source.name).Nodup ∧
    ∃ s view, Run (start twoSources) s ∧ s.IsComplete ∧ s.raised = false ∧ s.returned? = some (.ok view) ∧
      view.hosts = ["x", "y"] ∧ view.errors = ["a: stream ended before the final frame"] := by
  have hnames : (twoSources.map Source.name).Nodup := by decide
  obtain ⟨s, hrun, hcomplete, hraised, -⟩ := exists_run (.flatten (twoSources.map Source.events)) (by decide +kernel)
  obtain ⟨notes, hnotes, hreturned⟩ := (returned?_eq twoSources hnames).1 s hrun hcomplete hraised
  have hfailures : failureNotes twoSources = ["a: stream ended before the final frame"] := by decide +kernel
  rw [hfailures, List.perm_singleton] at hnotes
  have hsorted : latestFrames twoSources = twoSources.filterMap fun s => s.last?.map (s.name, ·) :=
    List.mergeSort_of_pairwise (by decide +kernel)
  have hlatest : ((latestFrames twoSources).map Prod.snd).flatMap Frame.hosts = ["y", "x"] := by
    rw [hsorted]
    decide +kernel
  have hmerged : (Frame.mergeAll? ((latestFrames twoSources).map Prod.snd)).map Frame.errors = some [] := by
    rw [hsorted]
    decide +kernel
  obtain ⟨merged, hm, herrors⟩ := Option.map_eq_some_iff.1 hmerged
  have hhosts : merged.hosts = ["x", "y"] := by
    have hperm : ["x", "y"].Perm ["y", "x"] := .swap "y" "x" []
    rw [Frame.hosts_mergeAll? hm, hlatest]
    exact (Merge.eq_sortTexts_of_perm hperm (by decide)).symm
  refine ⟨hnames, s, merged.conclude notes, hrun, hcomplete, hraised, ?_, hhosts, ?_⟩
  · rw [hreturned, hm, Option.map_some]
  · rw [Frame.conclude, herrors, hnotes, List.nil_append]

end Gathering

end ClusterMetrics
