import ClusterMetrics.CommandLine
import ClusterMetrics.Proofs.Merge.OneSide
import ClusterMetrics.Proofs.Merge.Times

/-! # What was printed is read again

A timestamp that was read is written as a text that is read as the same timestamp, unless an offset led it past the
year 9999. A frame is read again from its line exactly if it holds no such timestamp. A merged frame holds only
timestamps of the frames that were merged; it is read again if there is no late one among them and no sum of doubles has
become infinite (`CommandLine.printed_lines`). -/

namespace ClusterMetrics
open HasLeaves (leaves)

/-! ### Timestamps -/

namespace Timestamp

theorem decode?_compact_of_isLate {t : Timestamp} (h : t.IsLate) : codec.decode? (codec.compact t) = none := by
  have hparse : Json.parse? (codec.compact t) = some (.ofText t.format) :=
    Json.parse?_compact (.string (Json.stringText_encodeText _))
  rw [Codec.decode?, hparse]
  show (Json.ofText t.format).text?.bind parse? = none
  rw [Json.text?_ofText, Option.bind_some, parse?_format_of_isLate h]

/-- A timestamp that was read is read again from its text exactly if it is not late. -/
theorem decode?_compact_iff {t : Timestamp} (h : codec.Decodes t) :
    codec.decode? (codec.compact t) = some t ↔ ¬ t.IsLate := by
  constructor
  · intro hread hlate
    rw [decode?_compact_of_isLate hlate] at hread
    cases hread
  · intro hlate
    have hstorable : t.Storable := (every_time.1 (Codec.Yields.isDecoded_timestamp.of_decodes h)).resolve_right hlate
    exact ((Codec.Keeps.timestamp hstorable).decode?_eq (Codec.NestsWithin.timestamp t)).1

/-- The last minute of the year 9999, a minute west. -/
def lastMinuteWest : Bytes := utf8Bytes "\"9999-12-31T23:59:59-00:01\""

theorem not_decode?_compact_lastMinuteWest : ∃ t, codec.decode? lastMinuteWest = some t ∧
    codec.decode? (codec.compact t) = none :=
  ⟨.instant ⟨253402300859, 0⟩, by decide +kernel, by decide +kernel⟩

end Timestamp

/-! ### Frames -/

namespace Frame
variable {f g v : Frame} {fs gs : List Frame} {types : CategoryMask}

def HasNoLateTime (f : Frame) : Prop := ∀ t, .time t ∈ leaves f → ¬ t.IsLate

def HasFiniteDoubles (f : Frame) : Prop := ∀ x, .double x ∈ leaves f → x.IsFinite

/-- Every timestamp stands for never or is one of those in `fs`. -/
def TimesFrom (fs : List Frame) (f : Frame) : Prop := ∀ t, .time t ∈ leaves f → t = .zero ∨ ∃ g ∈ fs, .time t ∈ leaves g

theorem isSome_decode?_iff (hshallow : f.IsShallow) (htimes : ∀ t, .time t ∈ leaves f → (Leaf.time t).IsDecoded) :
    ((codec.decode? (codec.compact f)).isSome ↔ f.HasNoLateTime ∧ f.HasFiniteDoubles) ∧
      ((codec.decode? (codec.pretty f)).isSome ↔ f.HasNoLateTime ∧ f.HasFiniteDoubles) := by
  have hlegible : Every Leaf.IsLegible f ↔ f.HasNoLateTime ∧ f.HasFiniteDoubles := by
    constructor
    · intro h
      exact ⟨fun t ht => (Leaf.isLegible_time_iff (htimes t ht)).1 (h _ ht), fun x hx => h _ hx⟩
    · rintro ⟨htime, hdouble⟩ (t | x) hl
      · exact (Leaf.isLegible_time_iff (htimes t hl)).2 (htime t hl)
      · exact hdouble x hl
  rw [← hlegible]
  exact f.reopens.isSome_decode? hshallow.nesting_write_le

/-! ### Single frames -/

theorem every_restrict {P : Leaf → Prop} (h : Every P f) : Every P (f.restrict types) := by
  have hbundle : ∀ m : MetricBundle, Every P m → Every P (m.restrict types) := by
    intro m hm
    obtain ⟨hscanner, hdisk, hos, hbatchJobs, hsiteResync, hnetwork, hmemory, hcpu, hrpc, hruntime⟩ :=
      MetricBundle.every_iff.1 hm
    exact MetricBundle.every_iff.2 ⟨every_ite hscanner every_none, every_ite hdisk every_none,
      every_ite hos every_none, every_ite hbatchJobs every_none, every_ite hsiteResync every_none,
      every_ite hnetwork every_none, every_ite hmemory every_none, every_ite hcpu every_none,
      every_ite hrpc every_none, every_ite hruntime every_none⟩
  obtain ⟨htotal, hbyHost, hbyDisk⟩ := every_iff.1 h
  refine every_iff.2 ⟨hbundle _ htotal, every_keyMap.2 (List.forall_mem_map.2 fun p hp => ?_), hbyDisk⟩
  exact hbundle _ (every_keyMap.1 hbyHost p hp)

theorem IsShallow.restrict (h : f.IsShallow) : (f.restrict types).IsShallow := by
  have hbundle : ∀ (m : MetricBundle) (n : Nat), (∀ r ∈ m.rpc, r.tree.height ≤ n) →
      ∀ r ∈ (m.restrict types).rpc, r.tree.height ≤ n := by
    intro m n hm r hr
    have hr : r ∈ if types.has .rpc then m.rpc else none := hr
    split at hr
    · exact hm r hr
    · cases hr
  exact ⟨hbundle _ _ h.total, List.forall_mem_map.2 fun p hp => hbundle _ _ (h.byHost p hp)⟩

/-- A frame that was read is read again, with only the categories selected, if none of their timestamps is late. -/
theorem isSome_decode?_restrict_iff (h : codec.Decodes f) (types : CategoryMask) :
    (codec.decode? (codec.compact (f.restrict types))).isSome ↔ (f.restrict types).HasNoLateTime := by
  have hdecoded : Every Leaf.IsDecoded (f.restrict types) := every_restrict (yields_isDecoded.of_decodes h)
  have hiff := (isSome_decode?_iff (isShallow_of_decodes h).restrict fun t ht => hdecoded _ ht).1
  exact hiff.trans (and_iff_left fun x hx => hdecoded _ hx)

/-! ### Merged frames -/

/-- Timestamps of `fs`, and any doubles. -/
def IsLeafFrom (fs : List Frame) : Leaf → Prop
  | .time t => t = .zero ∨ ∃ g ∈ fs, .time t ∈ leaves g
  | .double _ => True

theorem asksOfTimes_isLeafFrom (fs : List Frame) : AsksOfTimes (IsLeafFrom fs) := ⟨.inl rfl, fun _ => trivial⟩

theorem every_isLeafFrom_of_mem (h : f ∈ fs) : Every (IsLeafFrom fs) f := by
  rintro (t | x) hl
  · exact .inr ⟨f, h, hl⟩
  · trivial

/-- The line shows a frame with timestamps of `fs`, and is read again exactly if there is no late timestamp and no
infinite double in it. -/
def IsMergedLine (fs : List Frame) (line : Bytes) : Prop :=
  ∃ v : Frame, line = codec.pretty v ∧ v.TimesFrom fs ∧
    ((codec.decode? line).isSome ↔ v.HasNoLateTime ∧ v.HasFiniteDoubles)

/-- Frames that were read are merged to a frame with such a line. -/
theorem isMergedLine_conclude (hfs : ∀ f ∈ fs, codec.Decodes f)
    (hgs : ∀ g ∈ gs, g.IsShallow ∧ Every (IsLeafFrom fs) g) (hv : mergeAll? gs = some v) (notes : List String) :
    IsMergedLine fs (codec.pretty (v.conclude notes)) := by
  have hmerged := isShallow_mergeAll? hv fun g hg => (hgs g hg).1
  have hshallow : (v.conclude notes).IsShallow := ⟨hmerged.total, hmerged.byHost⟩
  have htimes : (v.conclude notes).TimesFrom fs := fun t ht =>
    every_mergeAll? (asksOfTimes_isLeafFrom fs) hv (fun g hg => (hgs g hg).2) _ ht
  refine ⟨_, rfl, htimes, (isSome_decode?_iff hshallow fun t ht => ?_).2⟩
  rcases htimes t ht with rfl | ⟨f, hf, hmem⟩
  · exact .inl trivial
  · exact yields_isDecoded.of_decodes (hfs f hf) _ hmem

end Frame

/-! ### What `merge` prints -/

namespace FanIn

/-- Only frames that a source delivered are kept. -/
theorem mem_delivered_of_mem_latest {sources : List Source} {p : String × Frame}
    (h : p ∈ ((sources.flatMap Source.events).foldl receive {}).latest.entries) :
    p.2 ∈ sources.flatMap fun s => s.outcome.delivered := by
  have hget := get?_foldl_receive (sources.flatMap Source.events) {} p.1
  rw [KeyMap.mem_entries_iff.1 h, KeyMap.get?_empty, Option.or_none] at hget
  obtain ⟨e, he, hframe⟩ := List.mem_filterMap.1 (List.mem_of_getLast? hget.symm)
  obtain ⟨s, hs, he⟩ := List.mem_flatMap.1 he
  refine List.mem_flatMap.2 ⟨s, hs, ?_⟩
  have hmem : p.2 ∈ s.events.filterMap (SourceEvent.frameOf? p.1) := List.mem_filterMap.2 ⟨e, he, hframe⟩
  by_cases hname : s.name = p.1
  · rwa [← hname, Source.filterMap_frameOf?_self] at hmem
  · rw [Source.filterMap_frameOf?_of_ne hname] at hmem
    cases hmem

end FanIn

namespace CommandLine
variable {w : Watch} {surroundings : Surroundings} {frames : List Frame} {line : Bytes}

/-- The frames that the inputs send, as far as all inputs can be opened. -/
def mergedFrames (inputs : List String) (surroundings : Surroundings) : List Frame :=
  match openSources (inputs.map Input.ofPath) surroundings with
  | .error _ => []
  | .ok sources => sources.flatMap fun s => s.outcome.delivered

theorem decodes_of_mem_mergedFrames {inputs : List String} {f : Frame} (h : f ∈ mergedFrames inputs surroundings) :
    Frame.codec.Decodes f := by
  unfold mergedFrames at h
  split at h
  · cases h
  · obtain ⟨s, -, hf⟩ := List.mem_flatMap.1 h
    exact Stream.decodes_of_mem_delivered hf

theorem isMergedLine_of_mem_runMerge {inputs : List String} (h : line ∈ (runMerge inputs surroundings).output) :
    Frame.IsMergedLine (mergedFrames inputs surroundings) line := by
  have hdecodes := fun f => @decodes_of_mem_mergedFrames surroundings inputs f
  unfold runMerge at h
  unfold mergedFrames at hdecodes ⊢
  cases hopen : openSources (inputs.map Input.ofPath) surroundings with
  | error text => rw [hopen] at h; cases h
  | ok sources =>
    rw [hopen] at h hdecodes
    dsimp only at h hdecodes ⊢
    split at h
    · cases h
    · cases h
    · rename_i view hcollect
      rw [List.mem_singleton.1 h]
      unfold FanIn.collect? at hcollect
      split at hcollect
      · cases hcollect
      obtain ⟨view', hview, heq⟩ := Option.map_eq_some_iff.1 hcollect
      cases heq
      rw [FanIn.view?_eq] at hview
      obtain ⟨v, hv, rfl⟩ := Option.map_eq_some_iff.1 hview
      refine Frame.isMergedLine_conclude hdecodes (List.forall_mem_map.2 fun p hp => ?_) hv _
      have hmem := FanIn.mem_delivered_of_mem_latest hp
      exact ⟨Frame.isShallow_of_decodes (hdecodes _ hmem), Frame.every_isLeafFrom_of_mem hmem⟩

/-! ### What `watch --json` prints -/

/-- What comes of asking for the frames. -/
def Watch.outcome (w : Watch) (surroundings : Surroundings) : Stream.Outcome :=
  let opening : Opening :=
    match surroundings.openInput (Input.ofPath w.input) with
    | .ok (body, _) => .body body
    | .error text => .refused text
  (Exchange.ofRequest { Request.default with types := w.types } opening false fun _ => false).outcome

/-- How the run ends, by what was shown of the frames and what came after the last. -/
def Watch.conclude (w : Watch) : List Bytes × Option ClusterView → Except StreamError Nat → Completion
  | (lines, none), _ => .overflow lines
  | (lines, some _), .error e => .failure lines e.message
  | (lines, some view), .ok _ => .success (lines ++ if w.isMerging then [w.showView view] else [])

theorem Watch.run_eq_conclude (w : Watch) (surroundings : Surroundings) :
    w.run surroundings =
      w.conclude (w.showFrames (w.outcome surroundings).delivered {}) (w.outcome surroundings).result :=
  rfl

theorem Watch.decodes_of_mem_delivered {f : Frame} (h : f ∈ (w.outcome surroundings).delivered) :
    Frame.codec.Decodes f := by
  unfold outcome at h
  cases hopen : surroundings.openInput (Input.ofPath w.input) with
  | error text => rw [hopen] at h; cases h
  | ok opened =>
    rw [hopen] at h
    exact Stream.decodes_of_mem_delivered h

/-- Frames are shown in turn up to one that cannot be merged. -/
theorem Watch.exists_shown (w : Watch) (frames : List Frame) (view : ClusterView) : ∃ shown, shown <+: frames ∧
    (w.showFrames frames view).1 = shown.map (fun f => w.show (f.restrict w.types)) ∧
    ((w.showFrames frames view).2.isSome → shown = frames) := by
  induction frames generalizing view with
  | nil => exact ⟨[], List.prefix_rfl, rfl, fun _ => rfl⟩
  | cons f frames ih =>
    unfold showFrames
    dsimp only
    split
    next => exact ⟨[], List.nil_prefix, rfl, nofun⟩
    next next _ =>
      obtain ⟨shown, hprefix, hlines, hall⟩ := ih next
      refine ⟨f :: shown, List.cons_prefix_cons.2 ⟨rfl, hprefix⟩, ?_, fun hsome => ?_⟩
      · rw [List.map_cons, ← hlines]
      · rw [hall hsome]

theorem Watch.foldlM_of_showFrames (hm : w.isMerging = true) {view last : ClusterView}
    (h : (w.showFrames frames view).2 = some last) :
    (frames.map (·.restrict w.types)).foldlM Frame.merge? view.frame = some last.frame := by
  induction frames generalizing view with
  | nil => cases h; rfl
  | cons f frames ih =>
    unfold showFrames at h
    dsimp only at h
    rw [hm, if_pos rfl] at h
    cases habsorb : view.absorb? (f.restrict w.types) with
    | none => rw [habsorb] at h; cases h
    | some next =>
      rw [habsorb] at h
      obtain ⟨frame, hframe, rfl⟩ := Option.map_eq_some_iff.1 habsorb
      rw [List.map_cons, List.foldlM_cons, hframe]
      exact ih h

/-- The lines that are printed: one for each frame that is shown and, if frames are merged, perhaps one for them all. -/
structure Watch.Prints (w : Watch) (surroundings : Surroundings) (shown : List Frame) (last : List Bytes) : Prop where
  output : (w.run surroundings).output = shown.map (fun f => w.show (f.restrict w.types)) ++ last
  isPrefix : shown <+: (w.outcome surroundings).delivered
  all_shown : (w.run surroundings).status ≠ Completion.overflowStatus → shown = (w.outcome surroundings).delivered
  last : ∀ line ∈ last, w.isMerging = true ∧
    ∃ view, (w.showFrames (w.outcome surroundings).delivered {}).2 = some view ∧ line = w.showView view

theorem Watch.exists_prints (w : Watch) (surroundings : Surroundings) :
    ∃ shown last, w.Prints surroundings shown last := by
  obtain ⟨shown, hprefix, hlines, hall⟩ := w.exists_shown (w.outcome surroundings).delivered {}
  cases hshow : w.showFrames (w.outcome surroundings).delivered {} with
  | mk lines view =>
    rw [hshow] at hlines hall
    cases view with
    | none =>
      have hrun : w.run surroundings = .overflow lines := by
        rw [run_eq_conclude, hshow, conclude]
      refine ⟨shown, [], ?_, hprefix, fun hstatus => ?_, List.forall_mem_nil _⟩
      · rw [hrun, List.append_nil]
        exact hlines
      · rw [hrun] at hstatus
        exact absurd rfl hstatus
    | some view =>
      cases hresult : (w.outcome surroundings).result with
      | error e =>
        have hrun : w.run surroundings = .failure lines e.message := by
          rw [run_eq_conclude, hshow, hresult, conclude]
        refine ⟨shown, [], ?_, hprefix, fun _ => hall rfl, List.forall_mem_nil _⟩
        rw [hrun, List.append_nil]
        exact hlines
      | ok n =>
        have hrun : w.run surroundings = .success (lines ++ if w.isMerging then [w.showView view] else []) := by
          rw [run_eq_conclude, hshow, hresult, conclude]
        refine ⟨shown, if w.isMerging then [w.showView view] else [], ?_, hprefix, fun _ => hall rfl,
          fun line hline => ?_⟩
        · rw [hrun]
          exact congrArg (· ++ _) hlines
        · split at hline
          next hm => exact ⟨hm, view, by rw [hshow], List.mem_singleton.1 hline⟩
          next => cases hline

theorem Watch.isMergedLine_showView (hjson : w.isJson = true) (hm : w.isMerging = true) {view : ClusterView}
    (hview : (w.showFrames (w.outcome surroundings).delivered {}).2 = some view) :
    Frame.IsMergedLine (w.outcome surroundings).delivered (w.showView view) := by
  have hshow : w.showView view = Frame.codec.pretty (view.frame.conclude []) := by
    rw [Frame.conclude, List.append_nil]
    exact if_pos hjson
  rw [hshow]
  refine Frame.isMergedLine_conclude (fun f hf => decodes_of_mem_delivered hf) (List.forall_mem_map.2 fun f hf => ?_)
    (foldlM_of_showFrames hm hview) []
  exact ⟨(Frame.isShallow_of_decodes (decodes_of_mem_delivered hf)).restrict,
    Frame.every_restrict (Frame.every_isLeafFrom_of_mem hf)⟩

/-- Every frame that is shown has its line, and this is read again exactly if there is no late timestamp in it. -/
theorem Watch.exists_lines (hjson : w.isJson = true) : ∃ shown last,
    (w.run surroundings).output = shown.map (fun f => Frame.codec.compact (f.restrict w.types)) ++ last ∧
    shown <+: (w.outcome surroundings).delivered ∧
    ((w.run surroundings).status ≠ Completion.overflowStatus → shown = (w.outcome surroundings).delivered) ∧
    (∀ f ∈ shown, (Frame.codec.decode? (Frame.codec.compact (f.restrict w.types))).isSome ↔
      (f.restrict w.types).HasNoLateTime) ∧
    ∀ line ∈ last, w.isMerging = true ∧ Frame.IsMergedLine (w.outcome surroundings).delivered line := by
  obtain ⟨shown, last, h⟩ := w.exists_prints surroundings
  have hshow : ∀ f, w.show f = Frame.codec.compact f := fun f => if_pos hjson
  have houtput := h.output
  simp only [hshow] at houtput
  refine ⟨shown, last, houtput, h.isPrefix, h.all_shown, fun f hf => ?_, fun line hline => ?_⟩
  · exact Frame.isSome_decode?_restrict_iff (decodes_of_mem_delivered (h.isPrefix.subset hf)) w.types
  · obtain ⟨hm, view, hview, rfl⟩ := h.last line hline
    exact ⟨hm, isMergedLine_showView hjson hm hview⟩

/-! ### Both together -/

/-- A timestamp that was read is read again from its text exactly if it is not late. A line of `watch --json` that shows
a frame is read again exactly if there is no late timestamp in it. A line that shows merged frames, of `watch --json` or
of `merge`, holds timestamps of these frames only, and is read again exactly if there is no late one and no infinite
double in it. -/
theorem printed_lines (surroundings : Surroundings) :
    (∀ t, Timestamp.codec.Decodes t → (Timestamp.codec.decode? (Timestamp.codec.compact t) = some t ↔ ¬ t.IsLate)) ∧
    (∀ w : Watch, w.isJson = true → ∃ shown last,
      (w.run surroundings).output = shown.map (fun f => Frame.codec.compact (f.restrict w.types)) ++ last ∧
      shown <+: (w.outcome surroundings).delivered ∧
      ((w.run surroundings).status ≠ Completion.overflowStatus → shown = (w.outcome surroundings).delivered) ∧
      (∀ f ∈ shown, (Frame.codec.decode? (Frame.codec.compact (f.restrict w.types))).isSome ↔
        (f.restrict w.types).HasNoLateTime) ∧
      ∀ line ∈ last, w.isMerging = true ∧ Frame.IsMergedLine (w.outcome surroundings).delivered line) ∧
    ∀ (inputs : List String), ∀ line ∈ (runMerge inputs surroundings).output,
      Frame.IsMergedLine (mergedFrames inputs surroundings) line :=
  ⟨fun _ => Timestamp.decode?_compact_iff, fun _ => Watch.exists_lines, fun _ _ => isMergedLine_of_mem_runMerge⟩

/-- A final frame on the standard input, collected in a leap second. -/
def leapFrame : Surroundings where
  standardInput := [.bytes (utf8Bytes "\x7b\"aggregated\":\x7b\"net\":\x7b\"collected\":"),
    .bytes (utf8Bytes "\"2016-12-31T23:59:60.5Z\"\x7d\x7d,\"final\":true\x7d")]
  openFile _ := .error .missing

/-- Shows the frames of the standard input one by one. -/
def leapWatch : Watch := { input := "-", types := .all, isMerging := false, isJson := true }

theorem printed_lines_leapFrame :
    Timestamp.codec.decode? (Timestamp.codec.compact (.instant ⟨1483228799, 1500000000⟩)) =
      some (.instant ⟨1483228799, 1500000000⟩) ∧
    (∃ (shown : List Frame) (last : List Bytes), (leapWatch.run leapFrame).output =
        shown.map (fun f => Frame.codec.compact (f.restrict .all)) ++ last ∧ shown.length = 1 ∧
      ∀ f ∈ shown, (Frame.codec.decode? (Frame.codec.compact (f.restrict .all))).isSome ↔
        (f.restrict .all).HasNoLateTime) ∧
    ∃ line ∈ (runMerge ["-"] leapFrame).output, Frame.IsMergedLine (mergedFrames ["-"] leapFrame) line := by
  refine ⟨?_, ?_, ?_⟩
  · refine ((printed_lines leapFrame).1 _ ⟨utf8Bytes "\"2016-12-31T23:59:60.5Z\"", by decide +kernel⟩).2 ?_
    exact Timestamp.not_isLate_of_storable ⟨by decide +kernel, by decide +kernel, .inr ⟨by decide, by decide⟩⟩
  · obtain ⟨shown, last, houtput, -, hall, hiff, -⟩ := (printed_lines leapFrame).2.1 leapWatch rfl
    have hstatus : (leapWatch.run leapFrame).status ≠ Completion.overflowStatus := by decide +kernel
    have hlength : (leapWatch.outcome leapFrame).delivered.length = 1 := by decide +kernel
    exact ⟨shown, last, houtput, hall hstatus ▸ hlength, hiff⟩
  · have hlength : (runMerge ["-"] leapFrame).output.length = 1 := by decide +kernel
    obtain ⟨line, hline⟩ := List.length_eq_one_iff.1 hlength
    have hmem : line ∈ (runMerge ["-"] leapFrame).output := hline ▸ List.mem_singleton_self line
    exact ⟨line, hmem, (printed_lines leapFrame).2.2 ["-"] line hmem⟩

end CommandLine

end ClusterMetrics
