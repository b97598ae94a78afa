import ClusterMetrics.Proofs.Merge.AddingUp
import ClusterMetrics.Proofs.Merge.Range

/-! # Views of views

Several frames may be merged into a view, and several views into one again. What comes out is what merging all the
frames at once gives (`Frame.sameView_of_groups`). Of the metrics of the scanner, the processors, the calls and the
runtime it is only said whether there are any: sums of doubles depend on the grouping.

Merging is not associative in itself: a report without jobs is ignored with its time, so it must not be merged into
another before it is. Views that have grown from the empty one hold no such report (`BatchJobMetrics.IsGrown`), and
slots wait for the first report of all (`Merge.regroups_slotFrom?`). -/

namespace ClusterMetrics
open CheckedAdd (add?)

/-! ### Values absorbed in groups -/

section
variable {σ : Type} {absorb? : σ → σ → Option σ} {z : σ}

/-- Values leave what they leave if they are absorbed together first, beginning with `z`. -/
def Regroups (absorb? : σ → σ → Option σ) (z : σ) : Prop :=
  ∀ ⦃s a b v : σ⦄ ⦃l : List σ⦄, l.foldlM absorb? s = some a → l.foldlM absorb? z = some v →
    absorb? s v = some b → b = a

namespace Regroups

theorem foldl_absorb {absorb : σ → σ → σ} {P : σ → Prop} (hgrown : ∀ v x, P v → P (absorb v x))
    (hassoc : ∀ s v x, P v → absorb (absorb s v) x = absorb s (absorb v x)) {v : σ} (hv : P v) (s : σ)
    (l : List σ) : l.foldl absorb (absorb s v) = absorb s (l.foldl absorb v) := by
  induction l generalizing v with
  | nil => rfl
  | cons x l ih => rw [List.foldl_cons, List.foldl_cons, hassoc s v x hv, ih (hgrown v x hv)]

/-- What never fails need only be associative on states that have grown from `z`. -/
theorem of_assoc_of_grown {absorb : σ → σ → σ} {P : σ → Prop} (hz : P z)
    (hgrown : ∀ v x, P v → P (absorb v x))
    (hassoc : ∀ s v x, P v → absorb (absorb s v) x = absorb s (absorb v x)) (hright : ∀ s, absorb s z = s) :
    Regroups (fun s x => some (absorb s x)) z := by
  intro s a b v l ha hv hb
  rw [foldlM_some, Option.some.injEq] at ha hv
  rw [Option.some.injEq] at hb
  have hfold := foldl_absorb hgrown hassoc hz s l
  rw [hright] at hfold
  rw [← hb, ← hv, ← ha, hfold]

theorem of_assoc {absorb : σ → σ → σ} (hassoc : ∀ s v x, absorb (absorb s v) x = absorb s (absorb v x))
    (hright : ∀ s, absorb s z = s) : Regroups (fun s x => some (absorb s x)) z :=
  of_assoc_of_grown (P := fun _ => True) trivial (fun _ _ _ => trivial) (fun s v x _ => hassoc s v x) hright

end Regroups

theorem AddsUp.regroups (h : AddsUp absorb? z) : Regroups absorb? z := by
  intro s a b v l ha hv hb
  have hfold := h.foldlM_zero s l
  rw [hv, ha, Option.bind_some, hb] at hfold
  exact Option.some.inj hfold

variable {κ : Type} {f : σ → κ} {op : κ → κ → Option κ} {s t a b v : σ} {l : List σ}

/-- A field regroups within a record as it does for itself. -/
theorem Tracks.regroup (h : Tracks absorb? (.field f op)) (hop : Regroups op (f z)) (hst : f s = f t)
    (ha : l.foldlM absorb? s = some a) (hv : l.foldlM absorb? z = some v) (hb : absorb? t v = some b) : f b = f a := by
  have hb : op (f s) (f v) = some (f b) := hst ▸ h hb
  exact hop (h.run?_eq ha) (h.run?_eq hv) hb

theorem Tracks.regroup_groups (h : Tracks absorb? (.field f op)) (hop : Regroups op (f z)) {ls : List (List σ)}
    {vs : List σ} (hst : f s = f t) (ha : ls.flatten.foldlM absorb? s = some a)
    (hvs : ls.mapM (·.foldlM absorb? z) = some vs) (hb : vs.foldlM absorb? t = some b) : f b = f a := by
  induction ls generalizing s t vs with
  | nil =>
    cases hvs
    cases ha
    cases hb
    exact hst.symm
  | cons l ls ih =>
    rw [List.flatten_cons, List.foldlM_append] at ha
    obtain ⟨s', hs', ha⟩ := bind_eq_some.1 ha
    rw [List.mapM_cons] at hvs
    obtain ⟨v, hv, hvs⟩ := bind_eq_some.1 hvs
    obtain ⟨vs', hvs', hcons⟩ := bind_eq_some.1 hvs
    cases hcons
    rw [List.foldlM_cons] at hb
    obtain ⟨t', ht', hb⟩ := bind_eq_some.1 hb
    exact ih (h.regroup hop hst hs' hv ht').symm ha hvs' hb

theorem Tracks.comp {ι : Type} {g : κ → ι} {op' : ι → ι → Option ι} (h : Tracks absorb? (.field f op))
    (h' : Tracks op (.field g op')) : Tracks absorb? (.field (fun s => g (f s)) op') := by
  intro s x t hst
  exact h' (h hst)

theorem eq_of_regroup_fields {fs : List (σ → κ)} (h : ∀ p ∈ Part.fields fs op, Tracks absorb? p)
    (hop : ∀ f ∈ fs, Regroups op (f z)) (ha : l.foldlM absorb? s = some a) (hv : l.foldlM absorb? z = some v)
    (hb : absorb? s v = some b) : ∀ f ∈ fs, f b = f a := by
  intro f hf
  exact (h _ ⟨f, hf, rfl⟩).regroup (hop f hf) rfl ha hv hb

end

/-! ### Slots and maps -/

section
variable {κ : Type} {z : κ} {op : κ → κ → Option κ}

/-- A slot waits for the first value, so it is enough that some values can be grouped. -/
theorem Merge.regroups_slotFrom? (h : ∀ ⦃s a b v : κ⦄ ⦃l : List κ⦄, l ≠ [] → l.foldlM op s = some a →
    l.foldlM op z = some v → op s v = some b → b = a) : Regroups (slotFrom? z op) none := by
  intro s a b v l ha hv hb
  by_cases hnil : l.reduceOption = []
  · rw [foldlM_slotFrom?_of_eq_nil hnil, Option.some.injEq] at ha hv
    subst ha hv
    exact (Option.some.inj hb).symm
  · rw [foldlM_slotFrom?_of_ne_nil hnil] at ha hv
    obtain ⟨a', ha', rfl⟩ := Option.map_eq_some_iff.1 ha
    obtain ⟨v', hv', rfl⟩ := Option.map_eq_some_iff.1 hv
    obtain ⟨b', hb', rfl⟩ := Option.map_eq_some_iff.1 hb
    rw [h hnil ha' hv' hb']

theorem Merge.regroups_slot? {α : Type} [Merge α] (h : Regroups merge? (empty : α)) :
    Regroups (slot? (α := α)) none := by
  rw [slot?_eq]
  exact regroups_slotFrom? fun _ _ _ _ _ _ ha hv hb => h ha hv hb

theorem KeyMap.overwrite_assoc {α : Type} (m n r : KeyMap α) :
    (m.overwrite n).overwrite r = m.overwrite (n.overwrite r) := by
  refine ext_get? fun k => ?_
  rw [get?_overwrite, get?_overwrite, get?_overwrite, get?_overwrite, Option.or_assoc]

theorem KeyMap.regroups_overwrite {α : Type} : Regroups (fun m n : KeyMap α => some (m.overwrite n)) .empty :=
  .of_assoc overwrite_assoc fun _ => rfl

end

/-! ### Counters, times and names -/

theorem CheckedAdd.regroups_unsigned : Regroups (add? (α := UInt64)) 0 := addsUp_unsigned.regroups

theorem Timestamp.regroups_latest : Regroups (fun t u : Timestamp => some (t.latest u)) .zero :=
  addsUp_latest.regroups

@[simp] theorem Merge.empty_firstNonempty (a : String) : firstNonempty "" a = a := rfl

@[simp] theorem Merge.firstNonempty_empty (a : String) : firstNonempty a "" = a := by
  rw [firstNonempty]
  split
  next h => exact (String.isEmpty_iff.1 h).symm
  next => rfl

theorem Merge.firstNonempty_assoc (a b c : String) :
    firstNonempty (firstNonempty a b) c = firstNonempty a (firstNonempty b c) := by
  by_cases ha : a.isEmpty <;> simp [firstNonempty, ha]

theorem Merge.regroups_firstNonempty : Regroups (fun a b => some (firstNonempty a b)) "" :=
  .of_assoc firstNonempty_assoc firstNonempty_empty

/-! ### Drives and the operating system -/

theorem DriveMetrics.regroups : Regroups merge? {} := DriveMetrics.addsUp.regroups

theorem OsMetrics.regroups : Regroups merge? {} := OsMetrics.addsUp.regroups

/-! ### Jobs and resync -/

namespace BatchJobMetrics

/-- Without jobs there is no time of collection. -/
def IsGrown (m : BatchJobMetrics) : Prop := m.jobs.isEmpty = true → m.collected = .zero

theorem isEmpty_overwrite {α : Type} (m n : KeyMap α) :
    (m.overwrite n).isEmpty = true ↔ m.isEmpty = true ∧ n.isEmpty = true := by
  have hiff : ∀ m : KeyMap α, m.isEmpty = true ↔ ∀ k, m.get? k = none := by
    intro m
    refine ⟨fun h k => ?_, fun h => ?_⟩
    · rw [KeyMap.get?, List.isEmpty_iff.1 h]
      rfl
    · have : m = .empty := KeyMap.ext_get? h
      rw [this]
      rfl
  simp only [hiff, KeyMap.get?_overwrite, Option.or_eq_none_iff, forall_and, and_comm]

theorem merge_of_isEmpty {a b : BatchJobMetrics} (h : b.jobs.isEmpty = true) : a.merge b = a := if_pos h

theorem isGrown_merge (a b : BatchJobMetrics) (h : a.IsGrown) : (a.merge b).IsGrown := by
  by_cases hb : b.jobs.isEmpty = true
  · rwa [merge_of_isEmpty hb]
  · intro hempty
    rw [jobs_merge, isEmpty_overwrite] at hempty
    exact absurd hempty.2 hb

theorem ext_of_eq {a b : BatchJobMetrics} (hc : a.collected = b.collected) (hj : a.jobs = b.jobs) : a = b := by
  cases a
  cases b
  simp_all

theorem merge_assoc (s a b : BatchJobMetrics) (h : a.IsGrown) : (s.merge a).merge b = s.merge (a.merge b) := by
  by_cases hb : b.jobs.isEmpty = true
  · rw [merge_of_isEmpty hb, merge_of_isEmpty hb]
  have hab : ¬ (a.merge b).jobs.isEmpty = true := by
    rw [jobs_merge, isEmpty_overwrite]
    exact fun hempty => hb hempty.2
  refine ext_of_eq ?_ ?_
  · simp only [collected_merge, collectedAfter, if_neg hb, if_neg hab]
    split
    · rename_i ha
      rw [h ha, Timestamp.zero_latest]
    · exact Timestamp.latest_assoc ..
  · rw [jobs_merge, jobs_merge, jobs_merge, jobs_merge, KeyMap.overwrite_assoc]

theorem regroups : Regroups (Merge.merge? (α := BatchJobMetrics)) {} :=
  .of_assoc_of_grown (fun _ => rfl) isGrown_merge merge_assoc fun _ => rfl

end BatchJobMetrics

namespace SiteResyncMetrics
variable {a b c : SiteResyncMetrics}

theorem merge_of_zero (h : a.collected = .zero) : a.merge b = b := by rw [merge, h]; rfl

theorem merge_of_lt (h : a.collected.lt b.collected = true) : a.merge b = b := by
  rw [merge, h, Bool.or_true, if_pos rfl]

theorem merge_of_not_lt (h : a.collected ≠ .zero) (hlt : ¬ a.collected.lt b.collected = true) : a.merge b = a := by
  have hzero : a.collected.isZero = false := by
    cases hc : a.collected with
    | zero => exact absurd hc h
    | instant => rfl
  rw [merge, hzero, Bool.false_or, if_neg hlt]

theorem merge_assoc (a b c : SiteResyncMetrics) : (a.merge b).merge c = a.merge (b.merge c) := by
  by_cases ha : a.collected = .zero
  · rw [merge_of_zero ha, merge_of_zero ha]
  by_cases hab : a.collected.lt b.collected = true
  · have hlt : a.collected.lt (b.merge c).collected = true := by
      rw [collected_merge, Timestamp.lt_iff, Timestamp.rank_latest]
      exact lt_max_of_lt_left (Timestamp.lt_iff.1 hab)
    rw [merge_of_lt hab, merge_of_lt hlt]
  rw [merge_of_not_lt ha hab]
  by_cases hb : b.collected = .zero
  · rw [merge_of_zero hb]
  by_cases hbc : b.collected.lt c.collected = true
  · rw [merge_of_lt hbc]
  have hac : ¬ a.collected.lt c.collected = true := by
    rw [Timestamp.lt_iff, not_lt] at *
    exact hbc.trans hab
  rw [merge_of_not_lt hb hbc, merge_of_not_lt ha hab, merge_of_not_lt ha hac]

/-- No reports at all would take the place of one that has never been collected, hence `hne`. -/
theorem regroup {s v : SiteResyncMetrics} {l : List SiteResyncMetrics} (hne : l ≠ [])
    (ha : l.foldlM Merge.merge? s = some a) (hv : l.foldlM Merge.merge? ({} : SiteResyncMetrics) = some v)
    (hb : Merge.merge? s v = some b) : b = a := by
  cases l with
  | nil => exact absurd rfl hne
  | cons x l =>
    obtain rfl : (x :: l).foldl merge s = a := Option.some.inj ((foldlM_some merge s _).symm.trans ha)
    obtain rfl : (x :: l).foldl merge {} = v := Option.some.inj ((foldlM_some merge {} _).symm.trans hv)
    obtain rfl : s.merge _ = b := Option.some.inj hb
    rw [List.foldl_cons, List.foldl_cons, merge_of_zero (a := {}) rfl]
    exact (Regroups.foldl_absorb (P := fun _ => True) (fun _ _ _ => trivial) (fun s v x _ => merge_assoc s v x)
      trivial s l).symm

theorem regroups_slot? : Regroups (Merge.slot? (α := SiteResyncMetrics)) none := by
  rw [Merge.slot?_eq]
  exact Merge.regroups_slotFrom? fun _ _ _ _ _ => regroup

end SiteResyncMetrics

/-! ### Network and memory -/

namespace InterfaceCounters

theorem tracks_name : Tracks merge? (.total name Merge.firstNonempty) := by
  intro a b c h
  exact congrArg some ((inTurn a b).of_eq_some h).1.symm

theorem regroups : Regroups merge? {} := by
  intro s a b v l ha hv hb
  have hname := tracks_name.regroup Merge.regroups_firstNonempty rfl ha hv hb
  have hcounters := eq_of_regroup_fields splits.tracks (fun f hf => ?_) ha hv hb
  · simp only [counters, List.forall_mem_cons] at hcounters
    cases a
    cases b
    simp_all
  · fin_cases hf <;> exact CheckedAdd.regroups_unsigned

end InterfaceCounters

namespace NetworkMetrics

theorem tracks_interface : Tracks merge? (.total interface Merge.firstNonempty) := by
  intro a b c h
  exact congrArg some ((inTurn a b).of_eq_some h).1.symm

theorem regroups : Regroups merge? {} := by
  intro s a b v l ha hv hb
  have hcollected := (splits.tracks _ (.inl rfl)).regroup Timestamp.regroups_latest rfl ha hv hb
  have hinterface := tracks_interface.regroup Merge.regroups_firstNonempty rfl ha hv hb
  have hcounters := (splits.tracks _ (.inr rfl)).regroup InterfaceCounters.regroups rfl ha hv hb
  cases a
  cases b
  simp_all

end NetworkMetrics

namespace MemoryUse

theorem tracks_node : Tracks merge? (.total (·.node.address) Merge.firstNonempty) ∧
    Tracks merge? (.total (·.node.error) Merge.firstNonempty) := by
  constructor
  all_goals
    intro a b c h
    obtain ⟨⟨haddress, herror⟩, -⟩ := (inTurn a b).of_eq_some h
  · exact congrArg some haddress.symm
  · exact congrArg some herror.symm

theorem regroups : Regroups merge? {} := by
  intro s a b v l ha hv hb
  have haddress := tracks_node.1.regroup Merge.regroups_firstNonempty rfl ha hv hb
  have herror := tracks_node.2.regroup Merge.regroups_firstNonempty rfl ha hv hb
  have hcounters := eq_of_regroup_fields splits.tracks (fun f hf => ?_) ha hv hb
  · have hnode : b.node = a.node := by
      cases ha : a.node
      cases hb : b.node
      simp_all
    simp only [counters, List.forall_mem_cons] at hcounters
    cases a
    cases b
    simp_all
  · fin_cases hf <;> exact CheckedAdd.regroups_unsigned

end MemoryUse

theorem MemoryMetrics.regroups : Regroups merge? {} := by
  intro s a b v l ha hv hb
  have hcollected := (splits.tracks _ (.inl rfl)).regroup Timestamp.regroups_latest rfl ha hv hb
  have hmemory := (splits.tracks _ (.inr rfl)).regroup MemoryUse.regroups rfl ha hv hb
  cases a
  cases b
  simp_all

/-! ### Frames -/

theorem Merge.isSome_of_slot? {α : Type} [Merge α] {a b c : Option α} (h : slot? a b = some c) :
    c.isSome = (a.isSome || b.isSome) := by
  cases b with
  | none =>
    cases h
    rw [Option.isSome_none, Bool.or_false]
  | some b =>
    obtain ⟨x, -, rfl⟩ := Option.map_eq_some_iff.1 h
    rw [Option.isSome_some, Option.isSome_some, Bool.or_true]

/-- Merging keeps the categories of both. -/
theorem MetricBundle.has_merge? {a b c : MetricBundle} (h : a.merge? b = some c) (category : Category) :
    c.has category = (a.has category || b.has category) := by
  obtain ⟨hscanner, hdisk, hos, hbatchJobs, hsiteResync, hnetwork, hmemory, hcpu, hrpc, hruntime⟩ := tracks_slots
  cases category with
  | scanner => exact Merge.isSome_of_slot? (hscanner h)
  | disk => exact Merge.isSome_of_slot? (hdisk h)
  | os => exact Merge.isSome_of_slot? (hos h)
  | batchJobs => exact Merge.isSome_of_slot? (hbatchJobs h)
  | siteResync => exact Merge.isSome_of_slot? (hsiteResync h)
  | network => exact Merge.isSome_of_slot? (hnetwork h)
  | memory => exact Merge.isSome_of_slot? (hmemory h)
  | cpu => exact Merge.isSome_of_slot? (hcpu h)
  | rpc => exact Merge.isSome_of_slot? (hrpc h)
  | runtime => exact Merge.isSome_of_slot? (hruntime h)

theorem MetricBundle.tracks_has (category : Category) : Tracks merge? (.total (·.has category) or) := by
  intro a b c h
  exact congrArg some (has_merge? h category).symm

namespace Frame

/-- Equal apart from what the scanner, the processors, the calls and the runtime report. -/
structure SameView (a b : Frame) : Prop where
  hosts : a.hosts = b.hosts
  errors : a.errors = b.errors
  byHost : a.byHost = b.byHost
  byDisk : a.byDisk = b.byDisk
  isFinal : a.isFinal = b.isFinal
  has : ∀ category, a.total.has category = b.total.has category
  disk : a.total.disk = b.total.disk
  os : a.total.os = b.total.os
  batchJobs : a.total.batchJobs = b.total.batchJobs
  siteResync : a.total.siteResync = b.total.siteResync
  network : a.total.network = b.total.network
  memory : a.total.memory = b.total.memory

variable {groups : List (List Frame)} {views : List Frame} {flat top : Frame}

theorem perm_hosts_of_groups (h : groups.mapM mergeAll? = some views) :
    (views.flatMap hosts).Perm (groups.flatten.flatMap hosts) := by
  induction groups generalizing views with
  | nil =>
    cases h
    exact .nil
  | cons fs groups ih =>
    rw [List.mapM_cons] at h
    obtain ⟨v, hv, h⟩ := bind_eq_some.1 h
    obtain ⟨vs, hvs, h⟩ := bind_eq_some.1 h
    cases h
    rw [List.flatMap_cons, List.flatten_cons, List.flatMap_append, hosts_mergeAll? hv]
    exact (Merge.sortTexts_perm _).append (ih hvs)

theorem fields_merge? {a b c : Frame} (h : a.merge? b = some c) :
    c.errors = a.errors ++ b.errors ∧ c.byHost = a.byHost.overwrite b.byHost ∧
      c.byDisk = a.byDisk.overwrite b.byDisk ∧ c.isFinal = a.isFinal :=
  ((inTurn a b).of_eq_some h).1

theorem regroups_has (category : Category) :
    Regroups (fun a b => some (a || b)) (({} : Frame).total.has category) := by
  have hempty : ({} : Frame).total.has category = false := by cases category <;> rfl
  rw [hempty]
  exact .of_assoc Bool.or_assoc Bool.or_false

/-- A view of views is the view of all frames. -/
theorem sameView_of_groups (hflat : mergeAll? groups.flatten = some flat) (hviews : groups.mapM mergeAll? = some views)
    (htop : mergeAll? views = some top) : top.SameView flat := by
  have hregroup : ∀ {κ : Type} {f : Frame → κ} {g : κ → κ → Option κ}, Tracks merge? (.field f g) →
      Regroups g (f {}) → f top = f flat := by
    intro κ f g htracks hg
    exact htracks.regroup_groups hg rfl hflat hviews htop
  have htotal : Tracks merge? (.field total MetricBundle.merge?) := splits.tracks _ rfl
  obtain ⟨-, hdisk, hos, hbatchJobs, hsiteResync, hnetwork, hmemory, -⟩ := MetricBundle.tracks_slots
  exact {
    hosts := by
      rw [hosts_mergeAll? htop, hosts_mergeAll? hflat]
      exact Merge.sortTexts_congr (perm_hosts_of_groups hviews)
    errors := hregroup (g := fun a b => some (a ++ b)) (fun _ _ _ h => congrArg some (fields_merge? h).1.symm)
      (.of_assoc List.append_assoc List.append_nil)
    byHost := hregroup (g := fun m n => some (m.overwrite n))
      (fun _ _ _ h => congrArg some (fields_merge? h).2.1.symm) KeyMap.regroups_overwrite
    byDisk := hregroup (g := fun m n => some (m.overwrite n))
      (fun _ _ _ h => congrArg some (fields_merge? h).2.2.1.symm) KeyMap.regroups_overwrite
    isFinal := hregroup (g := fun a _ => some a) (fun _ _ _ h => congrArg some (fields_merge? h).2.2.2.symm)
      (.of_assoc (fun _ _ _ => rfl) fun _ => rfl)
    has := fun category => hregroup (htotal.comp (MetricBundle.tracks_has category)) (regroups_has category)
    disk := hregroup (htotal.comp hdisk) (Merge.regroups_slot? DriveMetrics.regroups)
    os := hregroup (htotal.comp hos) (Merge.regroups_slot? OsMetrics.regroups)
    batchJobs := hregroup (htotal.comp hbatchJobs) (Merge.regroups_slot? BatchJobMetrics.regroups)
    siteResync := hregroup (htotal.comp hsiteResync) SiteResyncMetrics.regroups_slot?
    network := hregroup (htotal.comp hnetwork) (Merge.regroups_slot? NetworkMetrics.regroups)
    memory := hregroup (htotal.comp hmemory) (Merge.regroups_slot? MemoryMetrics.regroups) }

/-- Two racks and one without frames; a report without jobs, resyncs never collected, a node without a name. -/
def racks : List (List Frame) := [
  [{ hosts := ["n2"], errors := ["n2: slow"]
     total := { batchJobs := some { collected := .ofUnixSeconds 90 }, siteResync := some { status := "Pending" }
                memory := some { memory := { total := 64 } } } },
   { hosts := ["n1"], total := { disk := some { drives := 4, lifeTime := .ofList [("read", 2)] } } }],
  [],
  [{ hosts := ["n3"], byHost := .ofList [("n3", {})]
     total := { batchJobs := some { collected := .ofUnixSeconds 30, jobs := .ofList [("j", { retries := 1 })] }
                siteResync := some { status := "Ongoing" }, memory := some { memory := { node := { address := "n3" } } }
                disk := some { drives := 1, lifeTime := .ofList [("read", 3), ("write", 5)] } } }]]

theorem sameView_racks : ∃ flat views top, mergeAll? racks.flatten = some flat ∧
    racks.mapM mergeAll? = some views ∧ mergeAll? views = some top ∧ top.SameView flat := by
  have hflat : (mergeAll? racks.flatten).isSome := by decide +kernel
  have hviews : (racks.mapM mergeAll?).isSome := by decide +kernel
  have htop : ((racks.mapM mergeAll?).bind mergeAll?).isSome := by decide +kernel
  obtain ⟨flat, hflat⟩ := Option.isSome_iff_exists.1 hflat
  obtain ⟨views, hviews⟩ := Option.isSome_iff_exists.1 hviews
  rw [hviews, Option.bind_some] at htop
  obtain ⟨top, htop⟩ := Option.isSome_iff_exists.1 htop
  exact ⟨flat, views, top, hflat, hviews, htop, sameView_of_groups hflat hviews htop⟩

end Frame

end ClusterMetrics
