import ClusterMetrics.Proofs.Merge.Grouping

/-! # Which report of a resync is left

A resync is one operation, so reports on it are not added up: of several reports one is left as it came. It is the first
of the newest ones (`SiteResyncMetrics.IsFirstNewest`). If none was ever collected it is the last of them all, since
a report that was never collected gives way to any other.

Main statement: `SiteResyncMetrics.exists_isLeft`. -/

namespace ClusterMetrics

namespace Timestamp
variable {t : Timestamp}

theorem not_lt_zero (t : Timestamp) : ¬ t.lt .zero = true := by cases t <;> exact Bool.false_ne_true

theorem zero_lt (h : t ≠ .zero) : Timestamp.zero.lt t = true := by
  cases t with
  | zero => exact absurd rfl h
  | instant => rfl

end Timestamp

namespace SiteResyncMetrics
variable {r x : SiteResyncMetrics} {reports : List SiteResyncMetrics}

/-- All reports before it were collected earlier, and none behind it later. -/
def IsFirstNewest (reports : List SiteResyncMetrics) (r : SiteResyncMetrics) : Prop :=
  ∃ before after, reports = before ++ r :: after ∧ (∀ x ∈ before, x.collected.lt r.collected = true) ∧
    ∀ x ∈ after, ¬ r.collected.lt x.collected = true

/-- The report that is left of some. -/
structure IsLeft (reports : List SiteResyncMetrics) (r : SiteResyncMetrics) : Prop where
  mem : r ∈ reports
  newest : (∃ x ∈ reports, x.collected ≠ .zero) → IsFirstNewest reports r
  last : (∀ x ∈ reports, x.collected = .zero) → reports.getLast? = some r

/-! ### One report more -/

theorem IsFirstNewest.not_lt (h : IsFirstNewest reports r) : ∀ x ∈ reports, ¬ r.collected.lt x.collected = true := by
  obtain ⟨before, after, rfl, hbefore, hafter⟩ := h
  intro x hx
  rcases List.mem_append.1 hx with hx | hx
  · have hlt := Timestamp.lt_iff.1 (hbefore x hx)
    exact fun h => lt_asymm hlt (Timestamp.lt_iff.1 h)
  rcases List.mem_cons.1 hx with rfl | hx
  · exact fun h => lt_irrefl _ (Timestamp.lt_iff.1 h)
  · exact hafter x hx

theorem IsFirstNewest.concat (h : IsFirstNewest reports r) (hx : ¬ r.collected.lt x.collected = true) :
    IsFirstNewest (reports ++ [x]) r := by
  obtain ⟨before, after, rfl, hbefore, hafter⟩ := h
  refine ⟨before, after ++ [x], by simp, hbefore, List.forall_mem_append.2 ⟨hafter, ?_⟩⟩
  exact List.forall_mem_singleton.2 hx

theorem isFirstNewest_concat_self (h : ∀ y ∈ reports, y.collected.lt x.collected = true) :
    IsFirstNewest (reports ++ [x]) x := ⟨reports, [], rfl, h, List.forall_mem_nil _⟩

/-- What comes after reports that were never collected takes their place. -/
theorem isLeft_concat_of_zero (h : ∀ y ∈ reports, y.collected = .zero) (x : SiteResyncMetrics) :
    IsLeft (reports ++ [x]) x where
  mem := List.mem_append_right _ List.mem_cons_self
  newest := by
    rintro ⟨y, hy, hne⟩
    have hx : x.collected ≠ .zero := by
      rcases List.mem_append.1 hy with hy | hy
      · exact absurd (h y hy) hne
      · rwa [← List.mem_singleton.1 hy]
    refine isFirstNewest_concat_self fun z hz => ?_
    rw [h z hz]
    exact Timestamp.zero_lt hx
  last _ := List.getLast?_concat ..

theorem IsLeft.zero_of_zero (h : IsLeft reports r) (hr : r.collected = .zero) : ∀ x ∈ reports, x.collected = .zero := by
  intro x hx
  by_contra hne
  have hnewest := h.newest ⟨x, hx, hne⟩
  refine hnewest.not_lt x hx ?_
  rw [hr]
  exact Timestamp.zero_lt hne

theorem IsLeft.merge (h : IsLeft reports r) (x : SiteResyncMetrics) : IsLeft (reports ++ [x]) (r.merge x) := by
  by_cases hr : r.collected = .zero
  · -- It gives way to any report, but then none of those before was collected either.
    rw [merge_of_zero hr]
    exact isLeft_concat_of_zero (h.zero_of_zero hr) x
  have hnewest : IsFirstNewest reports r := h.newest ⟨r, h.mem, hr⟩
  by_cases hlt : r.collected.lt x.collected = true
  · rw [merge_of_lt hlt]
    have hx : x.collected ≠ .zero := fun hx => Timestamp.not_lt_zero _ (hx ▸ hlt)
    exact {
      mem := List.mem_append_right _ List.mem_cons_self
      newest := fun _ => isFirstNewest_concat_self fun y hy => by
        have hle := not_lt.1 (Timestamp.lt_iff.not.1 (hnewest.not_lt y hy))
        exact Timestamp.lt_iff.2 (hle.trans_lt (Timestamp.lt_iff.1 hlt))
      last := fun hzero => absurd (hzero x (List.mem_append_right _ List.mem_cons_self)) hx }
  · rw [merge_of_not_lt hr hlt]
    exact {
      mem := List.mem_append_left _ h.mem
      newest := fun _ => hnewest.concat hlt
      last := fun hzero => absurd (hzero r (List.mem_append_left _ h.mem)) hr }

/-! ### All reports -/

theorem isLeft_foldl (hne : reports ≠ []) : IsLeft reports (reports.foldl merge {}) := by
  induction reports using List.reverseRecOn with
  | nil => exact absurd rfl hne
  | append_singleton reports x ih =>
    rw [List.foldl_append, List.foldl_cons, List.foldl_nil]
    by_cases hnil : reports = []
    · subst hnil
      exact isLeft_concat_of_zero (List.forall_mem_nil _) x
    · exact (ih hnil).merge x

/-- Reports that are merged into an empty slot leave one of them as it came: the first of the newest, or the last if
none was ever collected. -/
theorem exists_isLeft (hne : reports ≠ []) : ∃ r,
    reports.foldlM (fun slot x => Merge.slot? slot (some x)) none = some (some r) ∧ IsLeft reports r := by
  have hreduce : (reports.map some).reduceOption = reports := by
    rw [List.reduceOption, List.filterMap_map]
    exact List.filterMap_some
  have hslot : (reports.map some).foldlM Merge.slot? none = some (some (reports.foldl merge {})) := by
    rw [Merge.slot?_eq, Merge.foldlM_slotFrom?_of_ne_nil (by rwa [hreduce]), hreduce]
    exact congrArg (Option.map some) (foldlM_some merge {} reports)
  rw [List.foldlM_map] at hslot
  exact ⟨_, hslot, isLeft_foldl hne⟩

/-- Two nodes that have no news, and two that collected at the same time. -/
def statuses : List SiteResyncMetrics := [
  { status := "Pending" }, { collected := .ofUnixSeconds 100, status := "Ongoing" }, { status := "Unknown" },
  { collected := .ofUnixSeconds 200, status := "Completed" }, { collected := .ofUnixSeconds 200, status := "Failed" }]

theorem isLeft_statuses : ∃ r, statuses.foldlM (fun slot x => Merge.slot? slot (some x)) none = some (some r) ∧
    r.status = "Completed" ∧ IsFirstNewest statuses r := by
  have hne : statuses ≠ [] := by decide
  obtain ⟨r, hr, hleft⟩ := exists_isLeft hne
  have hstatus : (statuses.foldlM (fun slot x => Merge.slot? slot (some x)) none).map (·.map (·.status)) =
      some (some "Completed") := by decide +kernel
  rw [hr] at hstatus
  have hcollected : ∃ x ∈ statuses, x.collected ≠ .zero := by decide +kernel
  exact ⟨r, hr, Option.some.inj (Option.some.inj hstatus), hleft.newest hcollected⟩

end SiteResyncMetrics

end ClusterMetrics
