import ClusterMetrics.Input
import ClusterMetrics.Proofs.FanIn.Confluence

/-! # Sources with the same name

Under each name one frame is kept, so of several sources with one name all but one are lost, and which of them is
left depends on the order of arrival. Main statement: if all sources end with a final frame, the view has the
hosts of all of them in every run exactly if no two share a name and have hosts to lose
(`Gathering.hosts_eq_iff`). -/

namespace ClusterMetrics

namespace Source
variable {s : Source}

def lastHosts (s : Source) : List String := (s.last?.map Frame.hosts).getD []

/-- The stream of the source ends with a final frame. -/
def EndsFinal (s : Source) : Prop := ∃ f, s.last? = some f ∧ f.isFinal = true

theorem EndsFinal.interrupts (h : s.EndsFinal) : s.interrupts = false := by
  obtain ⟨f, hlast, hf⟩ := h
  obtain ⟨n, hn⟩ := Stream.exists_result_of_getLast? hlast hf
  rw [Source.interrupts, outcome, hn]

theorem EndsFinal.delivered_ne (h : s.EndsFinal) : s.outcome.delivered ≠ [] := by
  obtain ⟨f, hlast, -⟩ := h
  intro hnil
  rw [last?, hnil] at hlast
  cases hlast

end Source

variable {sources : List Source} {history : List SourceEvent}

/-- Entries that come from sources with their names come from some of the sources, each taken once. -/
theorem exists_chosen {entries : List (String × Frame)} (hkeys : (entries.map Prod.fst).Nodup)
    (h : ∀ p ∈ entries, ∃ s ∈ sources, s.name = p.1 ∧ s.last? = some p.2) :
    ∃ chosen lost, sources.Perm (chosen ++ lost) ∧ chosen.map Source.name = entries.map Prod.fst ∧
      (entries.map Prod.snd).flatMap Frame.hosts = chosen.flatMap Source.lastHosts := by
  induction entries generalizing sources with
  | nil => exact ⟨[], sources, .rfl, rfl, rfl⟩
  | cons p entries ih =>
    obtain ⟨hp, hkeys⟩ := List.nodup_cons.1 hkeys
    obtain ⟨⟨s, hs, hname, hlast⟩, h⟩ := List.forall_mem_cons.1 h
    obtain ⟨before, after, rfl⟩ := List.append_of_mem hs
    obtain ⟨chosen, lost, hperm, hnames, hhosts⟩ := @ih (before ++ after) hkeys fun q hq => by
      obtain ⟨s', hs', hname', hlast'⟩ := h q hq
      have hne : s' ≠ s := by
        rintro rfl
        exact hp (hname ▸ hname' ▸ List.mem_map_of_mem hq)
      refine ⟨s', ?_, hname', hlast'⟩
      rcases List.mem_append.1 hs' with hs' | hs'
      · exact List.mem_append_left _ hs'
      · exact List.mem_append_right _ ((List.mem_cons.1 hs').resolve_left hne)
    refine ⟨s :: chosen, lost, List.perm_middle.trans (hperm.cons s), ?_, ?_⟩
    · rw [List.map_cons, List.map_cons, hname, hnames]
    · rw [List.map_cons, List.flatMap_cons, List.flatMap_cons, hhosts, Source.lastHosts, hlast]
      rfl

namespace FanIn
variable {s : FanIn} {view : Frame}

/-- The hosts of the view are those of some of the sources, one for each name that is kept. -/
theorem exists_hosts (h : Interleaves (sources.map Source.events) history)
    (hs : s.latest = (history.foldl receive {}).latest) (hv : s.view? = some view) :
    ∃ chosen lost, sources.Perm (chosen ++ lost) ∧ chosen.map Source.name = s.latest.entries.map Prod.fst ∧
      view.hosts = Merge.sortTexts (chosen.flatMap Source.lastHosts) := by
  have hkept : ∀ p ∈ s.latest.entries, ∃ source ∈ sources, source.name = p.1 ∧ source.last? = some p.2 := by
    intro p hp
    rw [hs] at hp
    exact exists_source_of_latest h (KeyMap.mem_entries_iff.1 hp)
  obtain ⟨chosen, lost, hperm, hnames, hhosts⟩ := exists_chosen (KeyMap.nodup_keys _) hkept
  refine ⟨chosen, lost, hperm, hnames, ?_⟩
  rw [view?_eq] at hv
  obtain ⟨merged, hm, rfl⟩ := Option.map_eq_some_iff.1 hv
  rw [← hhosts, ← Frame.hosts_mergeAll? hm]
  rfl

theorem frames_ne_nil (h : Interleaves (sources.map Source.events) history) {s : Source} (hs : s ∈ sources)
    (hf : s.EndsFinal) : history.filterMap (SourceEvent.frameOf? s.name) ≠ [] := by
  intro hnil
  have hsub := (interleaves_frames h s.name).sublist (List.mem_map_of_mem hs)
  rw [s.filterMap_frameOf?_self, hnil] at hsub
  exact hf.delivered_ne (List.sublist_nil.1 hsub)

/-- The name of a source that ends with a final frame is kept. -/
theorem mem_keys (h : Interleaves (sources.map Source.events) history) {s : Source} (hs : s ∈ sources)
    (hf : s.EndsFinal) : s.name ∈ (history.foldl receive {}).latest.entries.map Prod.fst := by
  have hlast := List.getLast?_eq_some_getLast (frames_ne_nil h hs hf)
  rw [← get?_latest] at hlast
  exact List.mem_map_of_mem (f := Prod.fst) (KeyMap.mem_entries_iff.2 hlast)

/-- Received first, a source whose name comes up again leaves no trace. -/
theorem latest_first {before after : List Source} {s s' : Source} {es : List SourceEvent}
    (h : Interleaves ((before ++ after).map Source.events) es) (hs' : s' ∈ before ++ after)
    (hf : s'.EndsFinal) (hname : s'.name = s.name) :
    ((s.events ++ es).foldl receive {}).latest = (es.foldl receive {}).latest := by
  refine KeyMap.ext_get? fun name => ?_
  rw [get?_latest, get?_latest, List.filterMap_append]
  by_cases hn : s.name = name
  · have hne := frames_ne_nil h hs' hf
    rw [hname, hn] at hne
    rw [List.getLast?_append, List.getLast?_eq_some_getLast hne, Option.some_or]
  · rw [Source.filterMap_frameOf?_of_ne hn, List.nil_append]

end FanIn

/-! ### Lost sources -/

/-- Of two that share a name, neither lists hosts. -/
def NothingToLose (a b : Source) : Prop := a.name = b.name → a.lastHosts = [] ∧ b.lastHosts = []

theorem NothingToLose.symm {a b : Source} (h : NothingToLose a b) : NothingToLose b a :=
  fun hname => (h hname.symm).symm

/-- A source that has something to lose, and another one with its name. -/
theorem exists_loser (h : ¬ sources.Pairwise NothingToLose) :
    ∃ before s after, sources = before ++ s :: after ∧ s.lastHosts ≠ [] ∧
      ∃ s' ∈ before ++ after, s'.name = s.name := by
  have hpair : ∃ s s' rest, sources.Perm (s :: s' :: rest) ∧ s.lastHosts ≠ [] ∧ s'.name = s.name := by
    simp only [List.pairwise_iff_forall_sublist, Classical.not_forall] at h
    obtain ⟨a, b, hsub, hab⟩ := h
    obtain ⟨hname, hab⟩ := Classical.not_imp.1 hab
    obtain ⟨rest, hperm⟩ := hsub.exists_perm_append
    by_cases ha : a.lastHosts = []
    · exact ⟨b, a, rest, hperm.trans (.swap b a rest), fun hb => hab ⟨ha, hb⟩, hname⟩
    · exact ⟨a, b, rest, hperm, ha, hname.symm⟩
  obtain ⟨s, s', rest, hperm, hne, hname⟩ := hpair
  obtain ⟨before, after, rfl⟩ := List.append_of_mem (hperm.mem_iff.2 List.mem_cons_self)
  have hothers : (before ++ after).Perm (s' :: rest) := (List.perm_middle.symm.trans hperm).cons_inv
  exact ⟨before, s, after, rfl, hne, s', hothers.mem_iff.2 List.mem_cons_self, hname⟩

namespace Gathering

/-- If nothing is to be lost, all hosts are there. -/
theorem hosts_of_nothingToLose (hfinal : ∀ s ∈ sources, s.EndsFinal) (hl : sources.Pairwise NothingToLose)
    (h : Interleaves (sources.map Source.events) history) {view : Frame}
    (hv : (history.foldl FanIn.receive {}).view? = some view) :
    view.hosts = Merge.sortTexts (sources.flatMap Source.lastHosts) := by
  obtain ⟨chosen, lost, hperm, hnames, hhosts⟩ := FanIn.exists_hosts h rfl hv
  have hcross := (List.pairwise_append.1 (hperm.pairwise hl NothingToLose.symm)).2.2
  have hlost : lost.flatMap Source.lastHosts = [] := by
    refine List.flatMap_eq_nil_iff.2 fun s hs => ?_
    have hmem : s ∈ sources := hperm.mem_iff.2 (List.mem_append_right _ hs)
    have hkey := FanIn.mem_keys h hmem (hfinal s hmem)
    rw [← hnames] at hkey
    obtain ⟨s', hs', hname⟩ := List.mem_map.1 hkey
    exact (hcross s' hs' s hs hname).2
  have hall := hperm.flatMap_right Source.lastHosts
  rw [List.flatMap_append, hlost, List.append_nil] at hall
  rw [hhosts, Merge.sortTexts_congr hall]

/-- If something is to be lost, some run loses it. -/
theorem exists_run_that_loses (hfinal : ∀ s ∈ sources, s.EndsFinal) (hl : ¬ sources.Pairwise NothingToLose) :
    ∃ s, Run (start sources) s ∧ s.IsComplete ∧ s.raised = false ∧ ∀ view, s.returned? = some (.ok view) →
      view.hosts ≠ Merge.sortTexts (sources.flatMap Source.lastHosts) := by
  obtain ⟨before, loser, after, rfl, hne, s', hs', hname⟩ := exists_loser hl
  have hothers : ∀ s ∈ before ++ after, s ∈ before ++ loser :: after := fun s hs => by
    rcases List.mem_append.1 hs with hs | hs
    · exact List.mem_append_left _ hs
    · exact List.mem_append_right _ (List.mem_cons_of_mem _ hs)
  have hes := Interleaves.flatten ((before ++ after).map Source.events)
  generalize ((before ++ after).map Source.events).flatten = es at hes
  have hall : Interleaves ((before ++ loser :: after).map Source.events) (loser.events ++ es) := by
    have hfirst := hes
    rw [List.map_append] at hfirst
    rw [List.map_append, List.map_cons]
    exact hfirst.first loser.events
  obtain ⟨s, hrun, hcomplete, hraised, hreturned⟩ := exists_run hall fun s hs => (hfinal s hs).interrupts
  refine ⟨s, hrun, hcomplete, hraised, fun view hv heq => ?_⟩
  rw [hreturned] at hv
  obtain ⟨view, hview, hv⟩ := Option.map_eq_some_iff.1 hv
  cases hv
  have hlatest := FanIn.latest_first hes hs' (hfinal s' (hothers s' hs')) hname
  obtain ⟨chosen, lost, hperm, -, hhosts⟩ := FanIn.exists_hosts hes hlatest hview
  -- There are fewer hosts left than there were.
  have hall := (Merge.perm_of_sortTexts_eq (hhosts.symm.trans heq)).length_eq
  have hleft := (hperm.flatMap_right Source.lastHosts).length_eq
  have hpos := List.length_pos_iff.2 hne
  rw [List.flatMap_append, List.flatMap_cons, List.length_append, List.length_append] at hall
  rw [List.flatMap_append, List.flatMap_append, List.length_append, List.length_append] at hleft
  omega

/-- Sources that end with a final frame: complete runs during which the token is not raised return the hosts of
all of them if no two share a name and have hosts to lose and, as long as no counter leaves its range, only then. -/
theorem hosts_eq_iff (sources : List Source) (hfinal : ∀ source ∈ sources, source.EndsFinal) :
    (sources.Pairwise NothingToLose → ∀ s view, Run (start sources) s → s.IsComplete → s.raised = false →
      s.returned? = some (.ok view) → view.hosts = Merge.sortTexts (sources.flatMap Source.lastHosts)) ∧
    ((∀ s, Run (start sources) s → s.IsComplete → s.raised = false → s.returned? ≠ none) →
      (∀ s view, Run (start sources) s → s.IsComplete → s.raised = false → s.returned? = some (.ok view) →
        view.hosts = Merge.sortTexts (sources.flatMap Source.lastHosts)) →
      sources.Pairwise NothingToLose) := by
  constructor
  · intro hl s view hrun hcomplete hraised hreturned
    obtain ⟨history, h, hview⟩ := exists_history hrun hcomplete hraised
    rw [hview] at hreturned
    obtain ⟨view, hview, hv⟩ := Option.map_eq_some_iff.1 hreturned
    cases hv
    exact hosts_of_nothingToLose hfinal hl h hview
  · intro hrange hall
    by_cases hl : sources.Pairwise NothingToLose
    · exact hl
    · obtain ⟨s, hrun, hcomplete, hraised, hloses⟩ := exists_run_that_loses hfinal hl
      obtain ⟨history, -, hreturned⟩ := exists_history hrun hcomplete hraised
      have hsome := hrange s hrun hcomplete hraised
      rw [hreturned] at hsome
      obtain ⟨result, hview⟩ := Option.ne_none_iff_exists'.1 hsome
      obtain ⟨view, -, rfl⟩ := Option.map_eq_some_iff.1 hview
      rw [← hreturned] at hview
      exact absurd (hall s view hrun hcomplete hraised hview) (hloses view hview)

/-- A file that holds one frame, with one host. -/
def fileWithHost (path : String) : Source :=
  ⟨(Input.file path).name, [.bytes (utf8Bytes "\x7b\"hosts\":[\"a\"],\"final\":true\x7d")]⟩

def twoNames : List Source := [fileWithHost "node.json", fileWithHost "other.json"]

def oneName : List Source := [fileWithHost "node.json", fileWithHost "node.txt"]

theorem endsFinal_fileWithHost {path : String} : (fileWithHost path).EndsFinal := by
  have hfinal : (fileWithHost "").last?.map Frame.isFinal = some true := by decide +kernel
  exact Option.map_eq_some_iff.1 hfinal

theorem hosts_twoNames :
    (∀ source ∈ twoNames, source.EndsFinal) ∧
    (∀ s, Run (start twoNames) s → s.IsComplete → s.raised = false → s.returned? ≠ none) ∧
    (∀ s view, Run (start twoNames) s → s.IsComplete → s.raised = false → s.returned? = some (.ok view) →
      view.hosts = ["a", "a"]) ∧
    twoNames.Pairwise NothingToLose := by
  have hfinal : ∀ source ∈ twoNames, source.EndsFinal :=
    List.forall_mem_cons.2 ⟨endsFinal_fileWithHost, List.forall_mem_singleton.2 endsFinal_fileWithHost⟩
  have hrange : ∀ s, Run (start twoNames) s → s.IsComplete → s.raised = false → s.returned? ≠ none := by
    intro s hrun hcomplete hraised
    obtain ⟨history, h, hreturned⟩ := exists_history hrun hcomplete hraised
    obtain ⟨notes, -, hview⟩ := FanIn.view?_of_interleaves h (by decide +kernel)
    have hsorted : latestFrames twoNames = twoNames.filterMap fun s => s.last?.map (s.name, ·) :=
      List.mergeSort_of_pairwise (by decide +kernel)
    have hmerged : (Frame.mergeAll? ((latestFrames twoNames).map Prod.snd)).isSome = true := by
      rw [hsorted]
      decide +kernel
    obtain ⟨merged, hm⟩ := Option.isSome_iff_exists.1 hmerged
    rw [hreturned, hview, hm]
    nofun
  have hloss : twoNames.Pairwise NothingToLose := by
    refine List.pairwise_cons.2 ⟨List.forall_mem_singleton.2 fun hname => ?_, List.pairwise_singleton ..⟩
    exact absurd hname (by decide +kernel)
  obtain ⟨hif, honlyIf⟩ := hosts_eq_iff twoNames hfinal
  have hhosts : Merge.sortTexts (twoNames.flatMap Source.lastHosts) = ["a", "a"] := by
    have hlast : twoNames.flatMap Source.lastHosts = ["a", "a"] := by decide +kernel
    rw [hlast]
    exact Merge.sortTexts_of_pairwise (by decide)
  rw [← hhosts]
  exact ⟨hfinal, hrange, hif hloss, honlyIf hrange (hif hloss)⟩

/-- Two files of one name: a host is lost. -/
theorem hosts_oneName :
    (∀ source ∈ oneName, source.EndsFinal) ∧ Merge.sortTexts (oneName.flatMap Source.lastHosts) = ["a", "a"] ∧
    ∃ s view, Run (start oneName) s ∧ s.IsComplete ∧ s.raised = false ∧ s.returned? = some (.ok view) ∧
      view.hosts = ["a"] := by
  have hfinal : ∀ source ∈ oneName, source.EndsFinal :=
    List.forall_mem_cons.2 ⟨endsFinal_fileWithHost, List.forall_mem_singleton.2 endsFinal_fileWithHost⟩
  refine ⟨hfinal, ?_, ?_⟩
  · have hhosts : oneName.flatMap Source.lastHosts = ["a", "a"] := by decide +kernel
    rw [hhosts]
    exact Merge.sortTexts_of_pairwise (by decide)
  · obtain ⟨s, hrun, hcomplete, hraised, hreturned⟩ :=
      exists_run (.flatten (oneName.map Source.events)) fun s hs => (hfinal s hs).interrupts
    generalize hreceived : (oneName.map Source.events).flatten.foldl FanIn.receive {} = received at hreturned
    have hlatest : (received.latest.entries.map Prod.snd).flatMap Frame.hosts = ["a"] := by
      rw [← hreceived]
      decide +kernel
    have hmerged : (Frame.mergeAll? (received.latest.entries.map Prod.snd)).isSome = true := by
      rw [← hreceived]
      decide +kernel
    obtain ⟨merged, hm⟩ := Option.isSome_iff_exists.1 hmerged
    rw [FanIn.view?_eq, hm] at hreturned
    refine ⟨s, _, hrun, hcomplete, hraised, hreturned, ?_⟩
    rw [show (merged.conclude _).hosts = merged.hosts from rfl, Frame.hosts_mergeAll? hm, hlatest]
    exact List.mergeSort_singleton "a"

end Gathering

end ClusterMetrics
