import ClusterMetrics.Proofs.CategoryMasks
import ClusterMetrics.Proofs.DriveEntries
import ClusterMetrics.Proofs.PrintedFrames

/-! # Restricting to some categories

Restricting a bundle to the categories of a mask is a projection: what is left of two masks is what their common bits
leave (`MetricBundle.restrict_restrict`), in whatever order and however often they are applied. It commutes with merging,
since every category is merged for itself (`MetricBundle.merge?_restrict`), and so it does with whole frames, with views
of nodes and with what is shown of a stream.

Main statement: it makes no difference whether frames are restricted before they are merged or their view is restricted
after it (`restrict_commutes`). -/

namespace ClusterMetrics

/-! ### Maps -/

namespace KeyMap
variable {α β : Type}

theorem get?_mapValues (f : α → β) (m : KeyMap α) (k : String) : (m.mapValues f).get? k = (m.get? k).map f := by
  refine Option.ext fun w => ?_
  rw [Option.map_eq_some_iff, ← mem_entries_iff, mapValues, List.mem_map]
  constructor
  · rintro ⟨⟨k, v⟩, hv, hw⟩
    cases hw
    exact ⟨v, mem_entries_iff.1 hv, rfl⟩
  · rintro ⟨v, hv, rfl⟩
    exact ⟨(k, v), mem_entries_iff.2 hv, rfl⟩

theorem mapValues_overwrite (f : α → β) (m n : KeyMap α) :
    (m.overwrite n).mapValues f = (m.mapValues f).overwrite (n.mapValues f) := by
  refine ext_get? fun k => ?_
  rw [get?_mapValues, get?_overwrite, get?_overwrite, get?_mapValues, get?_mapValues]
  cases n.get? k <;> rfl

theorem mapValues_insert (f : α → β) (m : KeyMap α) (key : String) (v : α) :
    (m.insert key v).mapValues f = (m.mapValues f).insert key (f v) := by
  refine ext_get? fun k => ?_
  rw [get?_mapValues, get?_insert, get?_insert, get?_mapValues]
  split <;> rfl

end KeyMap

/-! ### Slots -/

namespace CategoryMask
variable {α : Type} {t : CategoryMask} {c : Category} {x y z : Option α}

/-- What is left of a slot for a category. -/
def keep (t : CategoryMask) (c : Category) (x : Option α) : Option α := if t.has c then x else Option.none

theorem isSome_keep (t : CategoryMask) (c : Category) (x : Option α) : (t.keep c x).isSome = (x.isSome && t.has c) := by
  rw [keep]
  cases t.has c
  · exact (Bool.and_false _).symm
  · exact (Bool.and_true _).symm

theorem keep_keep (s t : CategoryMask) (c : Category) (x : Option α) :
    s.keep c (t.keep c x) = (s.inter t).keep c x := by
  rw [keep, keep, keep, has_inter]
  cases s.has c <;> rfl

theorem slot?_keep [Merge α] (h : Merge.slot? x y = some z) :
    Merge.slot? (t.keep c x) (t.keep c y) = some (t.keep c z) := by
  unfold keep
  cases t.has c
  · rfl
  · exact h

end CategoryMask

/-! ### Bundles -/

namespace MetricBundle
variable {a b m : MetricBundle} {ms : List MetricBundle} {s t : CategoryMask} {c : Category} {ts us : List CategoryMask}

theorem restrict_eq (m : MetricBundle) (t : CategoryMask) : m.restrict t =
    { scanner := t.keep .scanner m.scanner, disk := t.keep .disk m.disk, os := t.keep .os m.os
      batchJobs := t.keep .batchJobs m.batchJobs, siteResync := t.keep .siteResync m.siteResync
      network := t.keep .network m.network, memory := t.keep .memory m.memory, cpu := t.keep .cpu m.cpu
      rpc := t.keep .rpc m.rpc, runtime := t.keep .runtime m.runtime } := rfl

theorem has_restrict (m : MetricBundle) (t : CategoryMask) (c : Category) :
    (m.restrict t).has c = (m.has c && t.has c) := by
  cases c <;> exact t.isSome_keep _ _

/-- Of the bits of a mask only those of categories matter. -/
theorem restrict_congr (h : ∀ c, s.has c = t.has c) (m : MetricBundle) : m.restrict s = m.restrict t := by
  simp only [restrict, h]

theorem restrict_all (m : MetricBundle) : m.restrict .all = m := rfl

@[simp] theorem restrict_empty (t : CategoryMask) : ({} : MetricBundle).restrict t = {} := by
  simp only [restrict, ite_self]

theorem restrict_restrict (m : MetricBundle) (s t : CategoryMask) : (m.restrict t).restrict s = m.restrict (s.inter t) := by
  simp only [restrict_eq, CategoryMask.keep_keep]

theorem foldl_restrict (ts : List CategoryMask) (m : MetricBundle) (s : CategoryMask) :
    ts.foldl restrict (m.restrict s) = m.restrict (ts.foldl (fun s t => t.inter s) s) := by
  induction ts generalizing s with
  | nil => rfl
  | cons t ts ih => rw [List.foldl_cons, List.foldl_cons, restrict_restrict, ih]

/-- Neither the order nor the repetition of masks makes a difference. -/
theorem foldl_restrict_congr (h : ∀ t, t ∈ ts ↔ t ∈ us) (m : MetricBundle) : ts.foldl restrict m = us.foldl restrict m := by
  have hhas : ∀ (ts : List CategoryMask) (s : CategoryMask) (c : Category),
      (ts.foldl (fun s t => t.inter s) s).has c = (s.has c && ts.all (·.has c)) := by
    intro ts
    induction ts with
    | nil => exact fun s c => (Bool.and_true _).symm
    | cons t ts ih =>
      intro s c
      rw [List.foldl_cons, ih, CategoryMask.has_inter, List.all_cons, Bool.and_comm (t.has c), Bool.and_assoc]
  rw [← restrict_all m, foldl_restrict, foldl_restrict]
  refine restrict_congr (fun c => ?_) m
  have hall : ts.all (·.has c) = us.all (·.has c) := by
    rw [Bool.eq_iff_iff, List.all_eq_true, List.all_eq_true]
    exact forall_congr' fun t => imp_congr_left (h t)
  rw [hhas, hhas, hall]

/-! ### Categories that are there -/

theorem isSet_types (m : MetricBundle) (i : Nat) :
    m.types.isSet i = Category.all.any fun c => m.has c && c.place == i := by
  rw [types, CategoryMask.isSet_ofCategories, List.any_filter]

theorem types_restrict (m : MetricBundle) (t : CategoryMask) : (m.restrict t).types = m.types.inter t := by
  refine CategoryMask.ext_isSet fun i => ?_
  rw [CategoryMask.isSet_inter, isSet_types, isSet_types, Bool.eq_iff_iff, Bool.and_eq_true, List.any_eq_true,
    List.any_eq_true]
  simp only [has_restrict, t.has_eq_isSet, Bool.and_eq_true, beq_iff_eq]
  constructor
  · rintro ⟨c, hc, ⟨hhas, hset⟩, rfl⟩
    exact ⟨⟨c, hc, hhas, rfl⟩, hset⟩
  · rintro ⟨⟨c, hc, hhas, rfl⟩, hset⟩
    exact ⟨c, hc, ⟨hhas, hset⟩, rfl⟩

theorem types_merge? (h : a.merge? b = some m) : m.types = a.types.union b.types := by
  refine CategoryMask.ext_isSet fun i => ?_
  rw [CategoryMask.isSet_union, isSet_types, isSet_types, isSet_types, Bool.eq_iff_iff]
  simp only [has_merge? h, Bool.and_or_distrib_right, Bool.or_eq_true, List.any_eq_true, and_or_left, exists_or]

/-! ### Merging -/

theorem merge?_restrict (h : a.merge? b = some m) : (a.restrict t).merge? (b.restrict t) = some (m.restrict t) := by
  obtain ⟨hscanner, hdisk, hos, hbatchJobs, hsiteResync, hnetwork, hmemory, hcpu, hrpc, hruntime⟩ := tracks_slots
  have hkeep : ∀ {α : Type} [Merge α] {f : MetricBundle → Option α} (c : Category), Tracks merge? (.field f Merge.slot?) →
      Merge.slot? (t.keep c (f a)) (t.keep c (f b)) = some (t.keep c (f m)) :=
    fun c htracks => CategoryMask.slot?_keep (htracks h)
  simp only [restrict_eq, merge?, hkeep .scanner hscanner, hkeep .disk hdisk, hkeep .os hos,
    hkeep .batchJobs hbatchJobs, hkeep .siteResync hsiteResync, hkeep .network hnetwork, hkeep .memory hmemory,
    hkeep .cpu hcpu, hkeep .rpc hrpc, hkeep .runtime hruntime]
  rfl

end MetricBundle

/-! ### Frames -/

namespace Frame
variable {a b c v : Frame} {fs : List Frame} {t : CategoryMask}

theorem merge?_restrict (h : a.merge? b = some c) : (a.restrict t).merge? (b.restrict t) = some (c.restrict t) := by
  rw [merge?] at h
  obtain ⟨total, htotal, h⟩ := bind_eq_some.1 h
  obtain rfl := Option.some.inj h
  have hrestrict : (a.restrict t).total.merge? (b.restrict t).total = some (total.restrict t) :=
    MetricBundle.merge?_restrict htotal
  rw [merge?, hrestrict]
  simp only [restrict, KeyMap.mapValues_overwrite]
  rfl

theorem restrict_empty (t : CategoryMask) : ({} : Frame).restrict t = {} := by
  rw [restrict, MetricBundle.restrict_empty]
  rfl

theorem tracks_restrict (t : CategoryMask) : Tracks merge? (.field (·.restrict t) merge?) :=
  fun _ _ _ h => merge?_restrict h

theorem mergeAll?_restrict (h : mergeAll? fs = some v) : mergeAll? (fs.map (·.restrict t)) = some (v.restrict t) := by
  have hrun := (tracks_restrict t).run?_eq h
  rw [Part.run?_field, restrict_empty] at hrun
  exact hrun

/-- Asking for some categories is restricting what comes of asking for all. -/
theorem ofNode_selecting (node : NodeReport) (request : Request) (t : CategoryMask) :
    ofNode node { request with types := t } = (ofNode node { request with types := .all }).restrict t := by
  simp only [ofNode, restrict, MetricBundle.restrict_all]
  split
  · rw [KeyMap.mapValues_insert]
    rfl
  · rfl

end Frame

/-! ### Views of nodes -/

namespace ClusterView
variable {v w : ClusterView} {f : Frame} {t : CategoryMask} {request : Request} {nodes : List NodeReport}

/-- The view with the metrics of the categories selected. -/
def restrict (v : ClusterView) (t : CategoryMask) : ClusterView := { v with frame := v.frame.restrict t }

theorem absorb?_restrict (h : v.absorb? f = some w) : (v.restrict t).absorb? (f.restrict t) = some (w.restrict t) := by
  obtain ⟨g, hg, rfl⟩ := Option.map_eq_some_iff.1 h
  rw [absorb?, restrict, Frame.merge?_restrict hg]
  rfl

theorem tracks_addNode? (request : Request) (t : CategoryMask) :
    Tracks (fun v node => addNode? v node { request with types := .all })
      ⟨(·.restrict t), id, fun v node => v.addNode? node { request with types := t }⟩ := by
  intro v node w h
  change (if request.wantsHost node.node.address = true then _ else _) = _ at h
  show (if request.wantsHost node.node.address = true then _ else _) = _
  by_cases hwanted : request.wantsHost node.node.address = true
  · rw [if_pos hwanted] at h ⊢
    rw [Frame.ofNode_selecting (id node) request t]
    exact absorb?_restrict h
  · rw [if_neg hwanted] at h ⊢
    rw [Option.some.inj h]

theorem addNodes?_restrict (h : addNodes? nodes { request with types := .all } = some v) (t : CategoryMask) :
    addNodes? nodes { request with types := t } = some (v.restrict t) := by
  have hrun := (tracks_addNode? request t).run?_eq h
  rw [Part.run?, List.map_id] at hrun
  dsimp only at hrun
  rwa [restrict, Frame.restrict_empty] at hrun

end ClusterView

/-! ### What is shown of a stream -/

namespace CommandLine.Watch
variable {w : Watch} {surroundings : Surroundings} {frames : List Frame} {f v : Frame}

theorem showFrames_of_foldlM (hm : w.isMerging = true) (view : ClusterView)
    (h : (frames.map (·.restrict w.types)).foldlM Frame.merge? view.frame = some f) :
    w.showFrames frames view =
      (frames.map (fun g => w.show (g.restrict w.types)), some ⟨f, view.merged + frames.length⟩) := by
  induction frames generalizing view with
  | nil =>
    cases h
    rfl
  | cons g frames ih =>
    rw [List.map_cons, List.foldlM_cons] at h
    obtain ⟨frame, hframe, h⟩ := bind_eq_some.1 h
    have habsorb : view.absorb? (g.restrict w.types) = some ⟨frame, view.merged + 1⟩ := by
      rw [ClusterView.absorb?, hframe, Option.map_some]
    have hrest := ih ⟨frame, view.merged + 1⟩ h
    simp only [showFrames, hm, if_true, habsorb, hrest, List.map_cons, List.length_cons]
    rw [Nat.add_assoc, Nat.add_comm 1]

/-- What is shown at the end is the view of all frames, restricted. -/
theorem run_of_mergeAll? (hm : w.isMerging = true) {n : Nat} (hresult : (w.outcome surroundings).result = .ok n)
    (h : Frame.mergeAll? (w.outcome surroundings).delivered = some v) :
    w.run surroundings = .success ((w.outcome surroundings).delivered.map (fun g => w.show (g.restrict w.types)) ++
      [w.showView ⟨v.restrict w.types, (w.outcome surroundings).delivered.length⟩]) := by
  have hshow := showFrames_of_foldlM hm {} (Frame.mergeAll?_restrict h)
  rw [run_eq_conclude, hshow, hresult, conclude, hm, if_pos rfl, Nat.zero_add]

end CommandLine.Watch

/-! ### All together -/

/-- Restricting is a projection onto the categories of a mask, and commutes with merging: of bundles, of any number of
frames, of nodes that are asked for some categories, and of the frames of a stream that is watched. -/
theorem restrict_commutes (s t : CategoryMask) :
    (∀ m : MetricBundle, (m.restrict t).types = m.types.inter t ∧ (m.restrict t).restrict s = m.restrict (s.inter t) ∧
      ∀ ts us : List CategoryMask, (∀ x, x ∈ ts ↔ x ∈ us) →
        ts.foldl MetricBundle.restrict m = us.foldl MetricBundle.restrict m) ∧
    (∀ a b m : MetricBundle, a.merge? b = some m → m.types = a.types.union b.types ∧
      (a.restrict t).merge? (b.restrict t) = some (m.restrict t)) ∧
    (∀ (fs : List Frame) (v : Frame), Frame.mergeAll? fs = some v →
      Frame.mergeAll? (fs.map (·.restrict t)) = some (v.restrict t)) ∧
    (∀ (nodes : List NodeReport) (request : Request) (v : ClusterView),
      ClusterView.addNodes? nodes { request with types := .all } = some v →
      ClusterView.addNodes? nodes { request with types := t } = some (v.restrict t)) ∧
    ∀ (w : CommandLine.Watch) (surroundings : Surroundings) (v : Frame) (n : Nat), w.isMerging = true →
      (w.outcome surroundings).result = .ok n → Frame.mergeAll? (w.outcome surroundings).delivered = some v →
      w.run surroundings = .success ((w.outcome surroundings).delivered.map (fun f => w.show (f.restrict w.types)) ++
        [w.showView ⟨v.restrict w.types, (w.outcome surroundings).delivered.length⟩]) := by
  refine ⟨fun m => ⟨m.types_restrict t, m.restrict_restrict s t, fun ts us h => MetricBundle.foldl_restrict_congr h m⟩,
    fun a b m h => ⟨MetricBundle.types_merge? h, MetricBundle.merge?_restrict h⟩, fun fs v h => Frame.mergeAll?_restrict h,
    fun nodes request v h => ClusterView.addNodes?_restrict h t, fun w surroundings v n hm hresult h => ?_⟩
  exact CommandLine.Watch.run_of_mergeAll? hm hresult h

/-- Drives and the network, and a bit that no category has. -/
def drivesAndMore : CategoryMask := ⟨0x80000022⟩

/-- Replies of two nodes, of which the second fails in part. -/
def twoReports : List NodeReport := [
  { node := { address := "n2" }, metrics := { disk := some { drives := 4 }, cpu := some { count := 8 } } },
  { node := { address := "n1", error := "busy" }, metrics := { disk := some { drives := 2 }, network := some {} } }]

/-- Two frames on the standard input. -/
def twoLines : Surroundings where
  standardInput := [.bytes (utf8Bytes "\x7b\"aggregated\":\x7b\"disk\":\x7b\"n_disks\":4\x7d,\"cpu\":\x7b\x7d\x7d\x7d"),
    .bytes (utf8Bytes " \x7b\"aggregated\":\x7b\"disk\":\x7b\"n_disks\":2\x7d\x7d,\"final\":true\x7d")]
  openFile _ := .error .missing

/-- Merges the frames of the standard input. -/
def mergingWatch : CommandLine.Watch := { input := "-", types := drivesAndMore, isMerging := true, isJson := false }

theorem restrict_commutes_twoReports :
    (∃ m : MetricBundle, MetricBundle.merge? { disk := some {}, cpu := some {} } { network := some {} } = some m ∧
      m.types = ⟨0xA2⟩ ∧ (m.restrict drivesAndMore).types = ⟨0x22⟩) ∧
    (∃ v, Frame.mergeAll? (twoReports.map (Frame.ofNode · .default)) = some v ∧
      Frame.mergeAll? ((twoReports.map (Frame.ofNode · .default)).map (·.restrict drivesAndMore)) =
        some (v.restrict drivesAndMore)) ∧
    (∃ v, ClusterView.addNodes? twoReports .default = some v ∧
      ClusterView.addNodes? twoReports { Request.default with types := drivesAndMore } =
        some (v.restrict drivesAndMore)) ∧
    ∃ v, Frame.mergeAll? (mergingWatch.outcome twoLines).delivered = some v ∧
      (mergingWatch.run twoLines).output.getLast? = some (mergingWatch.showView ⟨v.restrict drivesAndMore, 2⟩) := by
  obtain ⟨hbundle, hmerge, hframes, hnodes, hwatch⟩ := restrict_commutes .all drivesAndMore
  refine ⟨?_, ?_, ?_, ?_⟩
  · have hsome : (MetricBundle.merge? { disk := some {}, cpu := some {} } { network := some {} }).isSome := by
      decide +kernel
    obtain ⟨m, hm⟩ := Option.isSome_iff_exists.1 hsome
    obtain ⟨htypes, -⟩ := hmerge _ _ m hm
    refine ⟨m, hm, htypes.trans (by decide +kernel), ?_⟩
    rw [(hbundle m).1, htypes]
    decide +kernel
  · have hsome : (Frame.mergeAll? (twoReports.map (Frame.ofNode · .default))).isSome := by decide +kernel
    obtain ⟨v, hv⟩ := Option.isSome_iff_exists.1 hsome
    exact ⟨v, hv, hframes _ v hv⟩
  · have hsome : (ClusterView.addNodes? twoReports .default).isSome := by decide +kernel
    obtain ⟨v, hv⟩ := Option.isSome_iff_exists.1 hsome
    exact ⟨v, hv, hnodes twoReports .default v hv⟩
  · have hresult : (mergingWatch.outcome twoLines).result = .ok 2 := by decide +kernel
    have hlength : (mergingWatch.outcome twoLines).delivered.length = 2 := by decide +kernel
    have hsome : (Frame.mergeAll? (mergingWatch.outcome twoLines).delivered).isSome := by decide +kernel
    obtain ⟨v, hv⟩ := Option.isSome_iff_exists.1 hsome
    refine ⟨v, hv, ?_⟩
    rw [hwatch mergingWatch twoLines v 2 rfl hresult hv, hlength]
    exact List.getLast?_concat

end ClusterMetrics
