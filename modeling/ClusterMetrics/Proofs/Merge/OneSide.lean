import ClusterMetrics.Proofs.FanIn.Confluence
import ClusterMetrics.Proofs.Merge.Empty

/-! # What only one side reports

The empty value that absorbs a value shows it, for every type that is merged. So a single source is shown as it reported
last, and of two frames that are merged whatever only the second one reports is shown as it reports it
(`Accumulator.shows`). What `shown` leaves out is left out of values that can be read (`Accumulator.IsShownAs`). -/

namespace ClusterMetrics
open CheckedAdd (add?)
open NumEq (IsNumeric Same)

/-! ### The empty value absorbs a value -/

namespace Accumulator

/-- The empty value shows the value on absorbing it. -/
def ShownByEmpty (T : Accumulator) (a : T.Value) : Prop :=
  ∃ r, T.merge.merge? T.merge.empty a = some r ∧ T.Equal r (T.shown a)

theorem shownByEmpty_ofExact {α : Type} [Merge α] (c : Codec α) (h : ∀ a : α, Merge.merge? Merge.empty a = some a)
    (a : α) : (ofExact c).ShownByEmpty a := ⟨a, h a, rfl⟩

theorem shownByEmpty : ∀ T ∈ all, ∀ a, T.codec.Decodes a → T.ShownByEmpty a := by
  simp only [all, List.forall_mem_cons]
  refine ⟨fun a _ => shownByEmpty_ofExact _ OperationTotals.empty_merge? a,
    fun a _ => shownByEmpty_ofExact _ BlockDeviceCounters.empty_merge? a,
    fun a _ => shownByEmpty_ofExact _ DriveMetrics.empty_merge? a,
    fun a _ => shownByEmpty_ofExact _ OsMetrics.empty_merge? a,
    fun a _ => ⟨_, congrArg some (BatchJobMetrics.empty_merge a), rfl⟩,
    fun a _ => ⟨a, congrArg some (SiteResyncMetrics.empty_merge a), rfl⟩,
    fun a _ => shownByEmpty_ofExact _ InterfaceCounters.empty_merge? a,
    fun a _ => shownByEmpty_ofExact _ NetworkMetrics.empty_merge? a,
    fun a _ => shownByEmpty_ofExact _ MemoryMetrics.empty_merge? a,
    fun a ha => ⟨_, rfl, CpuTimes.empty_merge (CpuTimes.yields_isNumeric.of_decodes ha)⟩,
    fun a ha => ⟨_, rfl, LoadAverages.empty_merge (LoadAverages.yields_isNumeric.of_decodes ha)⟩,
    fun a ha => CpuMetrics.empty_merge? (CpuMetrics.yields_isNumeric.of_decodes ha),
    fun a ha => ⟨_, RpcMetrics.empty_merge? a, RpcMetrics.isNumeric_shown (RpcMetrics.yields_isNumeric.of_decodes ha)⟩,
    fun a ha => RuntimeMetrics.empty_merge? (RuntimeMetrics.yields_isNumeric.of_decodes ha),
    fun a _ => ⟨_, ScannerMetrics.empty_merge? a, rfl⟩,
    fun a ha => MetricBundle.empty_merge? (MetricBundle.yields_isNumeric.of_decodes ha), List.forall_mem_nil _⟩

end Accumulator

/-! ### A single source -/

theorem Frame.yields_isNumeric : Frame.codec.Yields fun f => IsNumeric f.total := by
  refine Record.yields rfl ?_
  simp only [Frame.record, List.forall_mem_cons]
  exact ⟨Field.preserves_of_set fun _ _ h => h, Field.preserves_of_set fun _ _ h => h,
    Field.preserves MetricBundle.yields_isNumeric fun _ _ h _ => h, Field.preserves_of_set fun _ _ h => h,
    Field.preserves_of_set fun _ _ h => h, Field.preserves_of_set fun _ _ h => h, nofun⟩

theorem FrameDecoder.decodes_of_next? {d d' : FrameDecoder} {f : Frame} (h : d.next? = .ok (d', some f)) :
    Frame.codec.Decodes f := by
  rcases next?_eq_ok h with ⟨-, hnone⟩ | ⟨begun, -, hscan⟩
  · cases hnone
  rcases scanFrame_eq_ok hscan with ⟨-, -, g, hg, hdecode⟩ | ⟨-, -, hnone⟩
  · cases hg
    exact ⟨_, hdecode⟩
  · cases hnone

theorem FrameDecoder.decodes_of_nextFrom {d d' : FrameDecoder} {body body' : Body} {f : Frame}
    (h : d.nextFrom body = .ok (f, d', body')) : Frame.codec.Decodes f := by
  refine nextFrom_induction (motive := fun _ _ => Frame.codec.Decodes f) ?_ ?_ ?_ h
  · exact fun _ hn => decodes_of_next? hn
  · exact fun _ _ _ _ _ ih => ih
  · exact fun _ _ _ _ ih => ih

/-- Every frame that a stream hands out was read. -/
theorem Stream.decodes_of_mem_delivered {s : Stream} {f : Frame} (h : f ∈ s.runAll.delivered) :
    Frame.codec.Decodes f := by
  induction hu : s.unread using Nat.strongRecOn generalizing s with
  | ind u ih =>
    subst hu
    rcases s.next_cases false with ⟨-, hn⟩ | ⟨-, hr, -⟩ | ⟨-, -, e, -, hn⟩ | ⟨-, -, g, decoder, body, hread, hn⟩
    · rw [runAll_of_none hn] at h; cases h
    · cases hr
    · rw [runAll_of_error hn] at h; cases h
    · rw [runAll_of_some hn] at h
      rcases List.mem_cons.1 h with rfl | h
      · exact FrameDecoder.decodes_of_nextFrom hread
      · exact ih _ (unread_next hn) h rfl

/-- The view of one source, with notes behind its errors. -/
structure Frame.ShowsSource (v f : Frame) (notes : List String) : Prop where
  errors : v.errors = f.errors ++ notes
  hosts : v.hosts = Merge.sortTexts f.hosts
  total : Same v.total f.total.shown
  byHost : v.byHost = f.byHost
  byDisk : v.byDisk = f.byDisk
  isFinal : v.isFinal = true

theorem Frame.exists_mergeAll?_single {f : Frame} (h : IsNumeric f.total) (notes : List String) :
    ∃ v, mergeAll? [f] = some v ∧ (v.conclude notes).ShowsSource f notes := by
  obtain ⟨total, htotal, hsame⟩ := MetricBundle.empty_merge? h
  have hmerge : merge? {} f = some { f with hosts := Merge.sortTexts f.hosts, total, isFinal := false } := by
    simp [merge?, htotal]
  have hall : mergeAll? [f] = some _ := (congrArg (Option.bind · some) hmerge :)
  exact ⟨_, hall, rfl, rfl, hsame, rfl, rfl, rfl⟩

namespace Gathering

theorem latestFrames_single {source : Source} {f : Frame} (h : source.last? = some f) :
    latestFrames [source] = [(source.name, f)] := by
  rw [latestFrames, List.filterMap_cons_some (b := (source.name, f)) (by rw [h, Option.map_some])]
  exact List.mergeSort_singleton _

theorem eq_failureNotes_single {source : Source} {notes : List String} (h : notes.Perm (failureNotes [source])) :
    notes = failureNotes [source] := by
  unfold failureNotes at *
  cases hf : source.failure? with
  | none =>
    rw [List.filterMap_cons_none hf] at h ⊢
    exact List.perm_nil.1 h
  | some failure =>
    rw [List.filterMap_cons_some hf] at h ⊢
    exact List.perm_singleton.1 h

/-- A run over one source shows what the source sent last, and notes its failure. -/
theorem showsSource {source : Source} {f : Frame} (hlast : source.last? = some f) {s : Gathering}
    (hrun : Run (start [source]) s) (hcomplete : s.IsComplete) (hraised : s.raised = false) :
    ∃ v, s.returned? = some (.ok v) ∧ v.ShowsSource f (failureNotes [source]) := by
  obtain ⟨history, h, hreturned⟩ := exists_history hrun hcomplete hraised
  obtain ⟨notes, hnotes, hview⟩ := FanIn.view?_of_interleaves h (List.nodup_singleton _)
  have hdecodes : Frame.codec.Decodes f := Stream.decodes_of_mem_delivered (List.mem_of_getLast? hlast)
  obtain ⟨v, hv, hshows⟩ := Frame.exists_mergeAll?_single (Frame.yields_isNumeric.of_decodes hdecodes) notes
  rw [eq_failureNotes_single hnotes] at hshows hview
  refine ⟨_, ?_, hshows⟩
  rw [hreturned, hview, latestFrames_single hlast, List.map_singleton, hv]
  rfl

end Gathering

/-! ### Keys and categories of one side -/

/-- What `n` holds under keys that `m` does not have is in `r`. -/
def KeyMap.TakesNew {α : Type} (same : α → α → Prop) (m n r : KeyMap α) : Prop :=
  ∀ k, m.get? k = none → Option.Rel same (r.get? k) (n.get? k)

namespace KeyMap
variable {α : Type} {same : α → α → Prop} {f : Option α → α → Option α} {m n r : KeyMap α}

theorem takesNew_combine? (h : m.combine? f n = some r) (hnew : ∀ p ∈ n.entries, ∀ w, f none p.2 = some w → same w p.2) :
    TakesNew same m n r := by
  intro k hk
  have hslot := get?_combine? h k
  rw [hk] at hslot
  cases hn : n.get? k with
  | none =>
    rw [hn] at hslot
    rw [← Option.some.inj hslot]
    exact .none
  | some v =>
    rw [hn] at hslot
    obtain ⟨w, hw, hr⟩ := Option.map_eq_some_iff.1 hslot
    rw [← hr]
    exact .some (hnew (k, v) (mem_entries_iff.2 hn) w hw)

theorem takesNew_combine?_eq (h : m.combine? f n = some r) (hnew : ∀ a, f none a = some a) : TakesNew Eq m n r := by
  refine takesNew_combine? h fun p _ w hw => ?_
  rw [hnew] at hw
  exact (Option.some.inj hw).symm

theorem rel_eq_self (o : Option α) : Option.Rel Eq o o := by
  cases o with
  | none => exact .none
  | some a => exact .some rfl

theorem takesNew_overwrite (m n : KeyMap α) : TakesNew Eq m n (m.overwrite n) := by
  intro k hk
  rw [get?_overwrite, hk, Option.or_none]
  exact rel_eq_self _

theorem takesNew_overwrite_flip (m n : KeyMap α) : TakesNew Eq m n (n.overwrite m) := by
  intro k hk
  rw [get?_overwrite, hk, Option.none_or]
  exact rel_eq_self _

end KeyMap

/-! ### Records -/

def DriveMetrics.TakesNew (a b c : DriveMetrics) : Prop :=
  a.lifeTime.TakesNew Eq b.lifeTime c.lifeTime ∧
    a.lastMinute.operations.TakesNew Eq b.lastMinute.operations c.lastMinute.operations

def OsMetrics.TakesNew (a b c : OsMetrics) : Prop :=
  a.lifeTime.TakesNew Eq b.lifeTime c.lifeTime ∧
    a.lastMinute.operations.TakesNew Eq b.lastMinute.operations c.lastMinute.operations

def BatchJobMetrics.TakesNew (a b c : BatchJobMetrics) : Prop := a.jobs.TakesNew Eq b.jobs c.jobs

/-- Counters at the ends of paths of peers that `a` does not have. -/
def RpcMetrics.TakesNew (a b c : RpcMetrics) : Prop :=
  ∀ path, a.at? path = none → c.at? path = (b.at? path).map RpcCounters.shown

structure ScannerMetrics.TakesNew (a b c : ScannerMetrics) : Prop where
  perBucket : a.perBucket.TakesNew Eq b.perBucket c.perBucket
  lifeTime : a.lifeTime.TakesNew Eq b.lifeTime c.lifeTime
  lifeTimeLifecycle : a.lifeTimeLifecycle.TakesNew Eq b.lifeTimeLifecycle c.lifeTimeLifecycle
  actions : a.lastMinute.actions.TakesNew Eq b.lastMinute.actions c.lastMinute.actions
  lifecycle : a.lastMinute.lifecycle.TakesNew Eq b.lastMinute.lifecycle c.lastMinute.lifecycle

structure RuntimeMetrics.TakesNew (a b c : RuntimeMetrics) : Prop where
  integers : a.integers.TakesNew Eq b.integers c.integers
  doubles : a.doubles.TakesNew Same b.doubles c.doubles
  histograms : a.histograms.TakesNew Eq b.histograms c.histograms

theorem LastMinute.takesNew {a b c : LastMinute} (h : a.merge? b = some c) :
    a.operations.TakesNew Eq b.operations c.operations :=
  KeyMap.takesNew_combine?_eq (splits.tracks _ rfl h) OperationTotals.empty_merge?

theorem KeyMap.takesNew_sumByKey? {m n r : KeyMap UInt64} (h : Merge.sumByKey? m n = some r) : m.TakesNew Eq n r :=
  takesNew_combine?_eq h CheckedAdd.zero_add?_unsigned

theorem KeyMap.takesNew_operations {m n r : KeyMap OperationTotals} (h : Merge.byKey? m n = some r) :
    m.TakesNew Eq n r := takesNew_combine?_eq h OperationTotals.empty_merge?

theorem DriveMetrics.takesNew {a b c : DriveMetrics} (h : a.merge? b = some c) : a.TakesNew b c := by
  have htracks := splits.tracks
  simp only [parts, Set.forall_mem_insert, Set.mem_singleton_iff, forall_eq] at htracks
  obtain ⟨-, -, -, -, hlifeTime, hlastMinute, -⟩ := htracks
  exact ⟨KeyMap.takesNew_sumByKey? (hlifeTime h), LastMinute.takesNew (hlastMinute h)⟩

theorem OsMetrics.takesNew {a b c : OsMetrics} (h : a.merge? b = some c) : a.TakesNew b c := by
  have htracks := splits.tracks
  simp only [parts, Set.forall_mem_insert, Set.mem_singleton_iff, forall_eq] at htracks
  obtain ⟨-, hlifeTime, hlastMinute⟩ := htracks
  exact ⟨KeyMap.takesNew_sumByKey? (hlifeTime h), LastMinute.takesNew (hlastMinute h)⟩

theorem BatchJobMetrics.takesNew (a b : BatchJobMetrics) : a.TakesNew b (a.merge b) := by
  unfold TakesNew
  rw [jobs_merge]
  exact KeyMap.takesNew_overwrite _ _

theorem ScannerMetrics.takesNew {a b c : ScannerMetrics} (h : a.merge? b = some c) : a.TakesNew b c := by
  obtain ⟨-, -, -, hperBucket, -, hlifeTime, hlifecycle, hactions, hlifecycleActions⟩ := tracks_parts
  have hperBucket : b.perBucket.overwrite a.perBucket = c.perBucket := Option.some.inj (hperBucket h)
  exact {
    perBucket := hperBucket ▸ KeyMap.takesNew_overwrite_flip _ _
    lifeTime := KeyMap.takesNew_sumByKey? (hlifeTime h)
    lifeTimeLifecycle := KeyMap.takesNew_sumByKey? (hlifecycle h)
    actions := KeyMap.takesNew_operations (hactions h)
    lifecycle := KeyMap.takesNew_operations (hlifecycleActions h) }

theorem RpcMetrics.takesNew {a b c : RpcMetrics} (h : a.merge? b = some c) : a.TakesNew b c := by
  intro path hpath
  have hslot := splits.tracks _ ⟨path, rfl⟩ h
  change Merge.slotFrom? {} RpcCounters.merge? (a.at? path) (b.at? path) = some (c.at? path) at hslot
  rw [hpath] at hslot
  cases hb : b.at? path with
  | none =>
    rw [hb] at hslot
    exact (Option.some.inj hslot).symm
  | some counters =>
    rw [hb] at hslot
    obtain ⟨w, hw, hc⟩ := Option.map_eq_some_iff.1 hslot
    rw [← hc, ← Option.some.inj ((RpcCounters.empty_merge? counters).symm.trans hw)]
    rfl

theorem RuntimeMetrics.takesNew {a b c : RuntimeMetrics} (hb : IsNumeric b) (h : a.merge? b = some c) :
    a.TakesNew b c := by
  obtain ⟨hintegers, hdoubles, hhistograms, -⟩ := tracks_parts
  have hnumeric := NumEq.isNumeric_keyMap.1 (isNumeric_iff.1 hb).1
  refine ⟨KeyMap.takesNew_sumByKey? (hintegers h), KeyMap.takesNew_combine? (hdoubles h) fun p hp w hw => ?_,
    KeyMap.takesNew_combine?_eq (hhistograms h) Histogram.empty_merge?⟩
  rw [← Option.some.inj hw]
  exact Binary64.numEq_zero_add (hnumeric p hp)

/-! ### Frames -/

namespace MetricBundle
variable {a b c : MetricBundle}

/-- Of a category that `a` does not have, `c` has what `b` shows of it; of one that both have, what `b` holds under
keys and paths that `a` does not have. -/
structure TakesNew (a b c : MetricBundle) : Prop where
  categories : ∀ category, a.has category = false →
    Same (c.restrict (.single category)) (b.shown.restrict (.single category))
  scanner : ∀ x ∈ a.scanner, ∀ y ∈ b.scanner, ∀ z ∈ c.scanner, x.TakesNew y z
  disk : ∀ x ∈ a.disk, ∀ y ∈ b.disk, ∀ z ∈ c.disk, x.TakesNew y z
  os : ∀ x ∈ a.os, ∀ y ∈ b.os, ∀ z ∈ c.os, x.TakesNew y z
  batchJobs : ∀ x ∈ a.batchJobs, ∀ y ∈ b.batchJobs, ∀ z ∈ c.batchJobs, x.TakesNew y z
  rpc : ∀ x ∈ a.rpc, ∀ y ∈ b.rpc, ∀ z ∈ c.rpc, x.TakesNew y z
  runtime : ∀ x ∈ a.runtime, ∀ y ∈ b.runtime, ∀ z ∈ c.runtime, x.TakesNew y z

theorem has_single (c d : Category) : (CategoryMask.single c).has d = decide (c = d) := by
  cases c <;> cases d <;> rfl

theorem same_restrict (h : Same a b) (types : CategoryMask) : Same (a.restrict types) (b.restrict types) := by
  have hslot : ∀ {α : Type} [NumEq α] {o p : Option α} (t : Bool), NumEq.numEq o p = true →
      NumEq.numEq (if t = true then o else none) (if t = true then p else none) = true := by
    intro α _ o p t h
    cases t
    exacts [rfl, h]
  simp only [Same, NumEq.numEq, numEq, Bool.and_eq_true, beq_iff_eq] at h
  simp only [Same, NumEq.numEq, numEq, restrict, Bool.and_eq_true, beq_iff_eq, h, true_and]
  exact ⟨⟨hslot _ h.1.1.2, hslot _ h.1.2⟩, hslot _ h.2⟩

theorem takesNew_categories (hb : IsNumeric b) (h : a.merge? b = some c) (category : Category)
    (ha : a.has category = false) : Same (c.restrict (.single category)) (b.shown.restrict (.single category)) := by
  obtain ⟨r, hr, hsame⟩ := empty_merge? hb
  have heq : c.restrict (.single category) = r.restrict (.single category) := by
    obtain ⟨hscanner, hdisk, hos, hbatchJobs, hsiteResync, hnetwork, hmemory, hcpu, hrpc, hruntime⟩ := tracks_slots
    have hslot : ∀ {α : Type} [Merge α] {o p q q' : Option α}, Merge.slot? o p = some q → Merge.slot? none p = some q' →
        o.isSome = false → q = q' := by
      intro α _ o p q q' hq hq' ho
      cases o with
      | none => exact Option.some.inj (hq.symm.trans hq')
      | some x => cases ho
    cases category with
    | scanner => simpa [restrict, has_single] using (hslot (hscanner h) (hscanner hr) ha : c.scanner = r.scanner)
    | disk => simpa [restrict, has_single] using (hslot (hdisk h) (hdisk hr) ha : c.disk = r.disk)
    | os => simpa [restrict, has_single] using (hslot (hos h) (hos hr) ha : c.os = r.os)
    | batchJobs => simpa [restrict, has_single] using (hslot (hbatchJobs h) (hbatchJobs hr) ha : c.batchJobs = r.batchJobs)
    | siteResync => simpa [restrict, has_single] using (hslot (hsiteResync h) (hsiteResync hr) ha : c.siteResync = r.siteResync)
    | network => simpa [restrict, has_single] using (hslot (hnetwork h) (hnetwork hr) ha : c.network = r.network)
    | memory => simpa [restrict, has_single] using (hslot (hmemory h) (hmemory hr) ha : c.memory = r.memory)
    | cpu => simpa [restrict, has_single] using (hslot (hcpu h) (hcpu hr) ha : c.cpu = r.cpu)
    | rpc => simpa [restrict, has_single] using (hslot (hrpc h) (hrpc hr) ha : c.rpc = r.rpc)
    | runtime => simpa [restrict, has_single] using (hslot (hruntime h) (hruntime hr) ha : c.runtime = r.runtime)
  rw [heq]
  exact same_restrict hsame _

theorem takesNew_slot {α : Type} [Merge α] {P : α → α → α → Prop} {o p q : Option α} (h : Merge.slot? o p = some q)
    (hP : ∀ x, ∀ y ∈ p, ∀ z, Merge.merge? x y = some z → P x y z) : ∀ x ∈ o, ∀ y ∈ p, ∀ z ∈ q, P x y z := by
  rintro x rfl y rfl z rfl
  obtain ⟨z', hz, hq⟩ := Option.map_eq_some_iff.1 h
  cases hq
  exact hP x y rfl z hz

theorem takesNew (hb : IsNumeric b) (h : a.merge? b = some c) : a.TakesNew b c := by
  obtain ⟨hscanner, hdisk, hos, hbatchJobs, -, -, -, -, hrpc, hruntime⟩ := tracks_slots
  exact {
    categories := takesNew_categories hb h
    scanner := takesNew_slot (hscanner h) fun _ _ _ _ => ScannerMetrics.takesNew
    disk := takesNew_slot (hdisk h) fun _ _ _ _ => DriveMetrics.takesNew
    os := takesNew_slot (hos h) fun _ _ _ _ => OsMetrics.takesNew
    batchJobs := takesNew_slot (hbatchJobs h) fun x y _ _ hz => Option.some.inj hz ▸ BatchJobMetrics.takesNew x y
    rpc := takesNew_slot (hrpc h) fun _ _ _ _ => RpcMetrics.takesNew
    runtime := takesNew_slot (hruntime h) fun _ y hy _ =>
      RuntimeMetrics.takesNew (NumEq.isNumeric_option.1 (isNumeric_iff.1 hb).2.2 y hy) }

end MetricBundle

/-- Everything that only `b` reports is in `c`. -/
structure Frame.TakesNew (a b c : Frame) : Prop where
  total : a.total.TakesNew b.total c.total
  byHost : a.byHost.TakesNew Eq b.byHost c.byHost
  byDisk : a.byDisk.TakesNew Eq b.byDisk c.byDisk

theorem Frame.takesNew {a b c : Frame} (hb : IsNumeric b.total) (h : a.merge? b = some c) : a.TakesNew b c := by
  obtain ⟨-, hbyHost, hbyDisk, -⟩ := fields_merge? h
  have htotal : a.total.merge? b.total = some c.total := splits.tracks _ rfl h
  exact {
    total := MetricBundle.takesNew hb htotal
    byHost := hbyHost ▸ KeyMap.takesNew_overwrite _ _
    byDisk := hbyDisk ▸ KeyMap.takesNew_overwrite _ _ }

namespace Accumulator

/-- What only one side reports is shown: by the empty value that absorbs it, by a run over a single source, and by a
frame into which it is merged. -/
theorem shows :
    (∀ T ∈ all, ∀ a, T.codec.Decodes a → T.ShownByEmpty a) ∧
    (∀ source f s, source.last? = some f → Gathering.Run (.start [source]) s → s.IsComplete → s.raised = false →
      ∃ v, s.returned? = some (.ok v) ∧ v.ShowsSource f (failureNotes [source])) ∧
    ∀ a b c : Frame, Frame.codec.Decodes b → a.merge? b = some c → a.TakesNew b c :=
  ⟨shownByEmpty, fun _ _ _ hlast hrun hcomplete hraised => Gathering.showsSource hlast hrun hcomplete hraised,
    fun _ _ _ hb h => Frame.takesNew (Frame.yields_isNumeric.of_decodes hb) h⟩

/-- A first cycle, and paths that are not sorted. -/
def firstCycle : Bytes := utf8Bytes "\x7b\"current_cycle\":1,\"active\":[\"b/2\",\"a/1\"]\x7d"

/-- A node whose only frame comes in two pieces. -/
def lone : Source := ⟨"n1", [
  .bytes (utf8Bytes "\x7b\"hosts\":[\"n1\"],\"aggregated\":\x7b\"cpu\":\x7b\"loadStat\":\x7b\"load1\":0.75\x7d\x7d,"),
  .bytes (utf8Bytes "\"disk\":\x7b\"life_time_ops\":\x7b\"put\":4,\"get\":1\x7d\x7d\x7d,\"final\":true\x7d")]⟩

/-- A view that the node's last frame is merged into. -/
def former : Frame := { total := { disk := some { lifeTime := .ofList [("put", 7)] } } }

theorem shows_lone : (∃ m, ScannerMetrics.codec.decode? firstCycle = some m ∧ scanner.ShownByEmpty m) ∧
    ∃ f s v c, lone.last? = some f ∧ Gathering.Run (.start [lone]) s ∧ s.IsComplete ∧ s.raised = false ∧
      s.returned? = some (.ok v) ∧ v.ShowsSource f [] ∧ former.merge? f = some c ∧ former.TakesNew f c := by
  obtain ⟨hshown, hsource, hframe⟩ := shows
  have hfirst : (ScannerMetrics.codec.decode? firstCycle).isSome := by decide +kernel
  obtain ⟨m, hm⟩ := Option.isSome_iff_exists.1 hfirst
  refine ⟨⟨m, hm, hshown scanner (by simp [all]) m ⟨_, hm⟩⟩, ?_⟩
  have hmerge : (lone.last?.bind former.merge?).isSome := by decide +kernel
  have hnotes : failureNotes [lone] = [] := by decide +kernel
  have hdelivers : lone.last?.isSome := by decide +kernel
  obtain ⟨f, hlast⟩ := Option.isSome_iff_exists.1 hdelivers
  rw [hlast, Option.bind_some] at hmerge
  obtain ⟨c, hc⟩ := Option.isSome_iff_exists.1 hmerge
  obtain ⟨s, hrun, hcomplete, hraised, -⟩ :=
    Gathering.exists_run (.flatten ([lone].map Source.events)) (by decide +kernel)
  obtain ⟨v, hv, hshows⟩ := hsource lone f s hlast hrun hcomplete hraised
  have hdecodes : Frame.codec.Decodes f := Stream.decodes_of_mem_delivered (List.mem_of_getLast? hlast)
  exact ⟨f, s, v, c, hlast, hrun, hcomplete, hraised, hv, hnotes ▸ hshows, hc, hframe former f c hdecodes hc⟩

/-! ### What the empty value does not show -/

/-- The empty value that absorbs what is read from `text` comes to `other`, and that is not the same as what was
read. -/
def IsShownAs {α : Type} [Merge α] (codec : Codec α) (same : α → α → Prop) (text : Bytes) (other : α) : Prop :=
  ∃ a r, codec.decode? text = some a ∧ Merge.merge? Merge.empty a = some r ∧ same r other ∧ ¬ same r a

/-- A report that was collected, without jobs. -/
def withoutJobs : Bytes := utf8Bytes "\x7b\"collected\":\"2024-05-05T05:05:05Z\",\"jobs\":\x7b\x7d\x7d"

/-- The start of a cycle that is not higher than the one a view begins with. -/
def startOfCycleZero : Bytes := utf8Bytes "\x7b\"current_started\":\"2024-05-05T05:05:05Z\"\x7d"

def pingWithoutPong : Bytes := utf8Bytes "\x7b\"lastPingMS\":2.5\x7d"

def negativeLongestPing : Bytes := utf8Bytes "\x7b\"maxPingDurMS\":-1.0\x7d"

theorem isShownAs_calls {text : Bytes} {other : RpcMetrics}
    (h : (RpcMetrics.codec.decode? text).any fun a => NumEq.numEq a.shown other && !NumEq.numEq a.shown a) :
    IsShownAs RpcMetrics.codec Same text other := by
  obtain ⟨a, ha, hshown⟩ := (Option.any_eq_true ..).1 h
  obtain ⟨hother, hself⟩ := Bool.and_eq_true_iff.1 hshown
  have hdiffers : ¬ Same a.shown a := Bool.eq_false_iff.1 (Bool.not_eq_true' _ ▸ hself)
  exact ⟨a, a.shown, ha, RpcMetrics.empty_merge? a, hother, hdiffers⟩

/-- For every rule that `shown` has, a text whose value it changes. -/
theorem isShownAs_exceptions :
    IsShownAs BatchJobMetrics.codec Eq withoutJobs {} ∧
    IsShownAs ScannerMetrics.codec Eq startOfCycleZero {} ∧
    IsShownAs ScannerMetrics.codec Eq firstCycle { cycle := 1, active := ["a/1", "b/2"] } ∧
    IsShownAs RpcMetrics.codec Same pingWithoutPong .empty ∧
    IsShownAs RpcMetrics.codec Same negativeLongestPing .empty := by
  have hjobs : IsShownAs BatchJobMetrics.codec Eq withoutJobs {} :=
    ⟨{ collected := .instant ⟨1714885505, 0⟩ }, {}, by decide +kernel, rfl, rfl, by decide⟩
  have hstart : IsShownAs ScannerMetrics.codec Eq startOfCycleZero {} :=
    ⟨{ started := .instant ⟨1714885505, 0⟩ }, {}, by decide +kernel, rfl, rfl, by decide⟩
  have hpaths : IsShownAs ScannerMetrics.codec Eq firstCycle { cycle := 1, active := ["a/1", "b/2"] } := by
    have hsorted : ["a/1", "b/2"] = Merge.sortTexts ["b/2", "a/1"] :=
      Merge.eq_sortTexts_of_perm (.swap ..) (by decide)
    refine ⟨{ cycle := 1, active := ["b/2", "a/1"] }, { cycle := 1, active := ["a/1", "b/2"] }, by decide +kernel,
      ?_, rfl, by decide⟩
    rw [hsorted]
    exact ScannerMetrics.empty_merge? _
  have hping : IsShownAs RpcMetrics.codec Same pingWithoutPong .empty := isShownAs_calls (by decide +kernel)
  have hlongest : IsShownAs RpcMetrics.codec Same negativeLongestPing .empty := isShownAs_calls (by decide +kernel)
  exact ⟨hjobs, hstart, hpaths, hping, hlongest⟩

end Accumulator

end ClusterMetrics
