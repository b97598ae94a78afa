import ClusterMetrics.Proofs.Merge.Range

/-! # Cycles of the scanner

Merged reports show the highest cycle and when it started. When earlier cycles were complete is told by the report of
the highest cycle, or by a longer list that is merged after it; a longer list that was merged before it is lost
(`ScannerMetrics.cycles_of_highest`).

Main statement: reports of different cycles leave the same cycle and the same start in every order, but the same
completion times only if no report tells of more cycles than the report of the highest one does
(`ScannerMetrics.sameCycles_of_perm_iff`). Two reports for which the order does matter are
`ScannerMetrics.longOldCycle` and `ScannerMetrics.shortNewCycle`. -/

namespace ClusterMetrics

/-! ### Taking in one report after the other -/

/-- What a report says of cycles: the current one, when it started, and when the latest ones were complete. -/
structure ScannerCycles where
  current : UInt64
  started : Timestamp
  completed : List Timestamp

namespace ScannerCycles
variable {a b top : ScannerCycles} {before after l : List ScannerCycles} {ts us : List Timestamp}
  {lists : List (List Timestamp)} {n : UInt64}

/-- The first of two lists, unless the other one is longer. -/
def longer (ts us : List Timestamp) : List Timestamp := if ts.length < us.length then us else ts

def absorb (a b : ScannerCycles) : ScannerCycles where
  current := max a.current b.current
  started := if a.current < b.current then b.started else a.started
  completed := longer (if a.current < b.current then b.completed else a.completed) b.completed

theorem longer_of_le (h : us.length ≤ ts.length) : longer ts us = ts := if_neg h.not_gt

theorem length_longer (ts us : List Timestamp) : (longer ts us).length = max ts.length us.length := by
  rw [longer]
  split <;> omega

theorem length_le_foldl_longer (ts : List Timestamp) (lists : List (List Timestamp)) :
    ∀ us ∈ ts :: lists, us.length ≤ (lists.foldl longer ts).length := by
  induction lists generalizing ts with
  | nil => simp
  | cons vs lists ih =>
    intro us hus
    have hfirst := ih (longer ts vs) (longer ts vs) List.mem_cons_self
    rw [length_longer] at hfirst
    rw [List.foldl_cons]
    rcases List.mem_cons.1 hus with rfl | hus
    · omega
    rcases List.mem_cons.1 hus with rfl | hus
    · omega
    · exact ih _ us (List.mem_cons_of_mem _ hus)

/-- A list outlasts others just if none of them is longer. -/
theorem foldl_longer_eq_iff : lists.foldl longer ts = ts ↔ ∀ us ∈ lists, us.length ≤ ts.length := by
  constructor
  · intro h us hus
    have hle := length_le_foldl_longer ts lists us (List.mem_cons_of_mem _ hus)
    rwa [h] at hle
  · intro h
    induction lists with
    | nil => rfl
    | cons us lists ih =>
      obtain ⟨hus, hlists⟩ := List.forall_mem_cons.1 h
      rw [List.foldl_cons, longer_of_le hus, ih hlists]

theorem absorb_of_lt (h : a.current < b.current) : a.absorb b = b := by
  have hmax : max a.current b.current = b.current := by
    rw [← UInt64.toNat_inj, UInt64.toNat_max]
    exact max_eq_right (UInt64.lt_iff_toNat_lt.1 h).le
  rw [absorb, hmax, if_pos h, if_pos h, longer_of_le (Nat.le_refl _)]

theorem absorb_of_le (h : b.current ≤ a.current) :
    a.absorb b = { a with completed := longer a.completed b.completed } := by
  have hmax : max a.current b.current = a.current := by
    rw [← UInt64.toNat_inj, UInt64.toNat_max]
    exact max_eq_left (UInt64.le_iff_toNat_le.1 h)
  rw [absorb, hmax, if_neg (UInt64.not_lt.2 h), if_neg (UInt64.not_lt.2 h)]

theorem current_foldl_lt (ha : a.current < n) (hl : ∀ c ∈ l, c.current < n) : (l.foldl absorb a).current < n := by
  induction l generalizing a with
  | nil => exact ha
  | cons c l ih =>
    obtain ⟨hc, hl⟩ := List.forall_mem_cons.1 hl
    refine ih ?_ hl
    rw [absorb, UInt64.lt_iff_toNat_lt, UInt64.toNat_max]
    exact max_lt (UInt64.lt_iff_toNat_lt.1 ha) (UInt64.lt_iff_toNat_lt.1 hc)

/-- Once the highest cycle is there, only the completion times may change. -/
theorem foldl_absorb_of_le (h : ∀ c ∈ l, c.current ≤ top.current) :
    l.foldl absorb top = { top with completed := (l.map completed).foldl longer top.completed } := by
  induction l generalizing top with
  | nil => rfl
  | cons c l ih =>
    obtain ⟨hc, hl⟩ := List.forall_mem_cons.1 h
    rw [List.foldl_cons, absorb_of_le hc]
    exact @ih { top with completed := longer top.completed c.completed } hl

/-- Nothing that was there before the highest cycle is left. -/
theorem foldl_absorb_highest (ha : a.current < top.current) (hbefore : ∀ c ∈ before, c.current < top.current)
    (hafter : ∀ c ∈ after, c.current ≤ top.current) :
    (before ++ top :: after).foldl absorb a =
      { top with completed := (after.map completed).foldl longer top.completed } := by
  rw [List.foldl_append, List.foldl_cons, absorb_of_lt (current_foldl_lt ha hbefore), foldl_absorb_of_le hafter]

end ScannerCycles

namespace ScannerMetrics
open ScannerCycles (longer foldl_longer_eq_iff)
variable {top merged : ScannerMetrics} {reports before after others : List ScannerMetrics}

def cycles (m : ScannerMetrics) : ScannerCycles := ⟨m.cycle, m.started, m.completed⟩

theorem tracks_cycles : Tracks merge? (.total cycles .absorb) := by
  intro a b c h
  obtain ⟨⟨hstarted, hcompleted⟩, -⟩ := (inTurn a b).of_eq_some h
  obtain ⟨-, hcycle, -⟩ := tracks_parts
  have hcycle : max a.cycle b.cycle = c.cycle := Option.some.inj (hcycle h)
  have hcycles : c.cycles = a.cycles.absorb b.cycles := by
    rw [cycles, ← hcycle, hstarted, hcompleted]
    rfl
  exact congrArg some hcycles.symm

theorem cycles_foldlM (h : reports.foldlM merge? {} = some merged) :
    merged.cycles = (reports.map cycles).foldl .absorb (cycles {}) := by
  have hrun := tracks_cycles.run?_eq h
  rw [Part.run?_field, foldlM_some] at hrun
  exact (Option.some.inj hrun).symm

/-! ### The highest cycle -/

/-- What is left of reports on lower cycles around a report on the highest one. A cycle zero is not known from its
report to have started, since it is not higher than the one that a new view begins with. -/
theorem cycles_of_highest (hlower : ∀ r ∈ before ++ after, r.cycle < top.cycle)
    (h : (before ++ top :: after).foldlM merge? {} = some merged) :
    merged.cycle = top.cycle ∧ merged.started = (if top.cycle = 0 then .zero else top.started) ∧
      merged.completed = (after.map completed).foldl longer top.completed := by
  have hcycles := cycles_foldlM h
  by_cases hzero : top.cycle = 0
  · -- Nothing is below zero, so there is no other report.
    have hnone : ∀ r, r ∉ before ++ after := fun r hr => UInt64.not_lt_zero (hzero ▸ hlower r hr)
    obtain ⟨rfl, rfl⟩ := List.append_eq_nil_iff.1 (List.eq_nil_iff_forall_not_mem.2 hnone)
    have htop : top.cycles.current ≤ (cycles {}).current := UInt64.le_of_eq hzero
    rw [List.nil_append, List.map_singleton, List.foldl_cons, ScannerCycles.absorb_of_le htop] at hcycles
    injection hcycles with hcurrent hstarted hcompleted
    refine ⟨hcurrent.trans hzero.symm, by rw [if_pos hzero]; exact hstarted, hcompleted.trans ?_⟩
    show longer [] top.completed = top.completed
    cases hlist : top.completed <;> rfl
  · have hstart : (cycles {}).current < top.cycles.current := UInt64.pos_iff_ne_zero.2 hzero
    obtain ⟨hbefore, hafter⟩ := List.forall_mem_append.1 hlower
    rw [List.map_append, List.map_cons, ScannerCycles.foldl_absorb_highest hstart
      (List.forall_mem_map.2 hbefore) (List.forall_mem_map.2 fun r hr => UInt64.le_of_lt (hafter r hr)),
      List.map_map] at hcycles
    injection hcycles with hcurrent hstarted hcompleted
    exact ⟨hcurrent, by rw [if_neg hzero]; exact hstarted, hcompleted⟩

/-- The report on the highest of some cycles. -/
def IsHighest (reports : List ScannerMetrics) (top : ScannerMetrics) : Prop :=
  top ∈ reports ∧ ∀ r ∈ reports, r.cycle ≤ top.cycle

instance : Decidable (IsHighest reports top) :=
  inferInstanceAs (Decidable (top ∈ reports ∧ ∀ r ∈ reports, r.cycle ≤ top.cycle))

theorem exists_isHighest (h : reports ≠ []) : ∃ top, IsHighest reports top := by
  cases hmax : reports.argmax (·.cycle.toNat) with
  | none => exact absurd (List.argmax_eq_none.1 hmax) h
  | some top =>
    refine ⟨top, List.argmax_mem hmax, fun r hr => UInt64.le_iff_toNat_le.2 ?_⟩
    exact List.le_of_mem_argmax (f := fun r : ScannerMetrics => r.cycle.toNat) hr hmax

theorem IsHighest.perm (h : IsHighest reports top) (hperm : reports.Perm others) : IsHighest others top :=
  ⟨hperm.mem_iff.1 h.1, fun r hr => h.2 r (hperm.mem_iff.2 hr)⟩

/-- Reports on different cycles lie around the one on the highest. -/
theorem IsHighest.split (h : IsHighest reports top) (hdistinct : (reports.map cycle).Nodup) :
    ∃ before after, reports = before ++ top :: after ∧ ∀ r ∈ before ++ after, r.cycle < top.cycle := by
  obtain ⟨before, after, rfl⟩ := List.append_of_mem h.1
  refine ⟨before, after, rfl, fun r hr => UInt64.lt_of_le_of_ne ?_ ?_⟩
  · exact h.2 r (List.perm_middle.mem_iff.2 (List.mem_cons_of_mem _ hr))
  · have hnodup : ((top :: (before ++ after)).map cycle).Nodup := (List.perm_middle.map cycle).nodup_iff.1 hdistinct
    rw [List.map_cons, List.nodup_cons] at hnodup
    intro he
    exact hnodup.1 (he ▸ List.mem_map_of_mem hr)

theorem exists_foldlM_of_perm (hperm : reports.Perm others) (h : reports.foldlM merge? {} = some merged) :
    ∃ m, others.foldlM merge? {} = some m := by
  have hfits : Fits reports := isSome_foldlM.1 (Option.isSome_of_eq_some h)
  exact Option.isSome_iff_exists.1 (isSome_foldlM.2 (hfits.perm hperm))

/-! ### In every order -/

/-- Reports in two orders have the same report on the highest cycle, unless there are no reports. -/
theorem eq_or_isHighest_of_perm {m : ScannerMetrics} (hperm : reports.Perm others)
    (hmerged : reports.foldlM merge? {} = some merged) (hm : others.foldlM merge? {} = some m) :
    m = merged ∨ ∃ top, IsHighest reports top ∧ IsHighest others top := by
  by_cases hnil : reports = []
  · obtain rfl := hnil
    obtain rfl := List.nil_perm.1 hperm
    exact .inl (Option.some.inj (hm.symm.trans hmerged))
  · obtain ⟨top, htop⟩ := exists_isHighest hnil
    exact .inr ⟨top, htop, htop.perm hperm⟩

/-- Of two orders of reports on different cycles, the same cycle and start are left. -/
theorem sameCurrent_of_perm {m : ScannerMetrics} (hdistinct : (reports.map cycle).Nodup) (hperm : reports.Perm others)
    (hmerged : reports.foldlM merge? {} = some merged) (hm : others.foldlM merge? {} = some m) :
    m.cycle = merged.cycle ∧ m.started = merged.started := by
  obtain rfl | ⟨top, htop, htop'⟩ := eq_or_isHighest_of_perm hperm hmerged hm
  · exact ⟨rfl, rfl⟩
  obtain ⟨before, after, rfl, hlower⟩ := htop.split hdistinct
  obtain ⟨before', after', rfl, hlower'⟩ := htop'.split ((hperm.map cycle).nodup_iff.1 hdistinct)
  obtain ⟨hcycle, hstarted, -⟩ := cycles_of_highest hlower hmerged
  obtain ⟨hcycle', hstarted', -⟩ := cycles_of_highest hlower' hm
  exact ⟨hcycle'.trans hcycle.symm, hstarted'.trans hstarted.symm⟩

/-- No report tells of more completed cycles than the report on the highest one. -/
def HighestTellsMost (reports : List ScannerMetrics) : Prop :=
  ∀ top ∈ reports, IsHighest reports top → ∀ r ∈ reports, r.completed.length ≤ top.completed.length

instance : Decidable (HighestTellsMost reports) :=
  inferInstanceAs (Decidable (∀ top ∈ reports, IsHighest reports top →
    ∀ r ∈ reports, r.completed.length ≤ top.completed.length))

theorem HighestTellsMost.perm (h : HighestTellsMost reports) (hperm : reports.Perm others) :
    HighestTellsMost others := by
  intro top hmem htop r hr
  exact h top (hperm.mem_iff.2 hmem) (htop.perm hperm.symm) r (hperm.mem_iff.2 hr)

theorem HighestTellsMost.completed_eq (h : HighestTellsMost reports) (htop : IsHighest reports top)
    (hdistinct : (reports.map cycle).Nodup) (hmerged : reports.foldlM merge? {} = some merged) :
    merged.completed = top.completed := by
  have hlength := h top htop.1 htop
  obtain ⟨before, after, rfl, hlower⟩ := htop.split hdistinct
  rw [(cycles_of_highest hlower hmerged).2.2, foldl_longer_eq_iff, List.forall_mem_map]
  intro r hr
  exact hlength r (List.mem_append_right _ (List.mem_cons_of_mem _ hr))

/-- If the order makes no difference, the highest report is worth as much before the others as behind them. -/
theorem highestTellsMost_of_sameCycles (hdistinct : (reports.map cycle).Nodup)
    (hmerged : reports.foldlM merge? {} = some merged)
    (hsame : ∀ others m, reports.Perm others → others.foldlM merge? {} = some m → m.cycles = merged.cycles) :
    HighestTellsMost reports := by
  intro top _ htop
  obtain ⟨before, after, rfl, hlower⟩ := htop.split hdistinct
  have hfirst : (before ++ top :: after).Perm ([] ++ top :: (before ++ after)) := List.perm_middle
  have hlast : (before ++ top :: after).Perm (before ++ after ++ [top]) :=
    hfirst.trans (List.perm_append_singleton top (before ++ after)).symm
  obtain ⟨m, hm⟩ := exists_foldlM_of_perm hfirst hmerged
  obtain ⟨m', hm'⟩ := exists_foldlM_of_perm hlast hmerged
  have hlower' : ∀ r ∈ before ++ after ++ [], r.cycle < top.cycle := by rwa [List.append_nil]
  obtain ⟨-, -, hbefore⟩ := cycles_of_highest (List.nil_append _ ▸ hlower) hm
  obtain ⟨-, -, hbehind⟩ := cycles_of_highest hlower' hm'
  have heq : m.completed = m'.completed :=
    congrArg ScannerCycles.completed ((hsame _ m hfirst hm).trans (hsame _ m' hlast hm').symm)
  rw [hbefore, hbehind, List.map_nil, List.foldl_nil, foldl_longer_eq_iff, List.forall_mem_map] at heq
  intro r hr
  rcases List.mem_cons.1 (hfirst.mem_iff.1 hr) with rfl | hr
  · exact Nat.le_refl _
  · exact heq r hr

/-- Reports on different cycles leave the same cycle and start in every order, and the same completion times just if the
report on the highest cycle tells of most. -/
theorem sameCycles_of_perm_iff (hdistinct : (reports.map cycle).Nodup)
    (hmerged : reports.foldlM merge? {} = some merged) :
    (∀ others, reports.Perm others →
      ∃ m, others.foldlM merge? {} = some m ∧ m.cycle = merged.cycle ∧ m.started = merged.started) ∧
    ((∀ others m, reports.Perm others → others.foldlM merge? {} = some m → m.cycles = merged.cycles) ↔
      HighestTellsMost reports) := by
  refine ⟨fun others hperm => ?_, highestTellsMost_of_sameCycles hdistinct hmerged, fun hmost others m hperm hm => ?_⟩
  · obtain ⟨m, hm⟩ := exists_foldlM_of_perm hperm hmerged
    exact ⟨m, hm, sameCurrent_of_perm hdistinct hperm hmerged hm⟩
  obtain ⟨hcycle, hstarted⟩ := sameCurrent_of_perm hdistinct hperm hmerged hm
  obtain rfl | ⟨top, htop, htop'⟩ := eq_or_isHighest_of_perm hperm hmerged hm
  · rfl
  have hcompleted : merged.completed = top.completed := hmost.completed_eq htop hdistinct hmerged
  have hcompleted' : m.completed = top.completed :=
    (hmost.perm hperm).completed_eq htop' ((hperm.map cycle).nodup_iff.1 hdistinct) hm
  rw [cycles, cycles, hcycle, hstarted, hcompleted, hcompleted']

/-- Two lists of the same length, and a node that has not begun to scan. -/
def evenReports : List ScannerMetrics := [
  { cycle := 4, started := .ofUnixSeconds 350, completed := [.ofUnixSeconds 200, .ofUnixSeconds 300] },
  {},
  { cycle := 5, started := .ofUnixSeconds 450, completed := [.ofUnixSeconds 300, .ofUnixSeconds 400] }]

theorem sameCycles_evenReports : ∃ merged, evenReports.foldlM merge? {} = some merged ∧
    ∀ others m, evenReports.Perm others → others.foldlM merge? {} = some m → m.cycles = merged.cycles := by
  have hsome : (evenReports.foldlM merge? {}).isSome := by decide +kernel
  have hdistinct : (evenReports.map cycle).Nodup := by decide +kernel
  have hmost : HighestTellsMost evenReports := by decide +kernel
  obtain ⟨merged, hmerged⟩ := Option.isSome_iff_exists.1 hsome
  exact ⟨merged, hmerged, (sameCycles_of_perm_iff hdistinct hmerged).2.2 hmost⟩

/-- A node that has completed cycles but is behind. -/
def longOldCycle : ScannerMetrics := { cycle := 3, completed := [.ofUnixSeconds 100, .ofUnixSeconds 200] }

/-- A node that is ahead but tells of one completed cycle only. -/
def shortNewCycle : ScannerMetrics := { cycle := 4, completed := [.ofUnixSeconds 300] }

/-- The longer list is left if it comes last, and lost if it comes first. -/
theorem completed_longOldCycle : ([shortNewCycle, longOldCycle].map cycle).Nodup ∧
    [shortNewCycle, longOldCycle].Perm [longOldCycle, shortNewCycle] ∧
    ([shortNewCycle, longOldCycle].foldlM merge? {}).map completed = some longOldCycle.completed ∧
    ([longOldCycle, shortNewCycle].foldlM merge? {}).map completed = some shortNewCycle.completed ∧
    shortNewCycle.completed ≠ longOldCycle.completed := by
  refine ⟨by decide, List.Perm.swap .., ?_, ?_, by decide⟩
  all_goals decide +kernel

end ScannerMetrics

end ClusterMetrics
