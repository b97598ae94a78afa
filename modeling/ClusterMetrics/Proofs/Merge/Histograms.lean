import ClusterMetrics.Proofs.Merge.Grouping

/-! # Samples in histograms

Histograms with equally many boundaries are added up place by place, for as long as the first one has counts. What a
later one counts at further places is left out, and nothing else is (`Histogram.samples_foldlM`).

Main statement: under one name merged reports count just as many samples as the reports do if no histogram counts
samples at places that the first does not have (`RuntimeMetrics.samples_eq_sum_iff`), for instance if all have equally
many counts (`Histogram.firstCovers_of_length`). Otherwise they count fewer: `RuntimeMetrics.samples_idleFirst`. -/

namespace ClusterMetrics
open CheckedAdd (add? addPairwise? addPairwise?_nil_left addPairwise?_cons_eq_some toNat_add?)

/-! ### One histogram after the other -/

theorem CheckedAdd.length_addPairwise? {as bs cs : List UInt64} (h : addPairwise? as bs = some cs) :
    cs.length = as.length := by
  induction as generalizing bs cs with
  | nil =>
    rw [addPairwise?_nil_left] at h
    cases h
    rfl
  | cons a as ih =>
    cases bs with
    | nil => cases h; rfl
    | cons b bs =>
      obtain ⟨c, cs', -, hcs, rfl⟩ := addPairwise?_cons_eq_some h
      rw [List.length_cons, List.length_cons, ih hcs]

/-- What the second list has too much is not in the sums. -/
theorem CheckedAdd.sum_addPairwise? {as bs cs : List UInt64} (h : addPairwise? as bs = some cs) :
    (cs.map UInt64.toNat).sum + ((bs.drop as.length).map UInt64.toNat).sum =
      (as.map UInt64.toNat).sum + (bs.map UInt64.toNat).sum := by
  induction as generalizing bs cs with
  | nil =>
    rw [addPairwise?_nil_left] at h
    cases h
    rfl
  | cons a as ih =>
    cases bs with
    | nil => cases h; rfl
    | cons b bs =>
      obtain ⟨c, cs', hc, hcs, rfl⟩ := addPairwise?_cons_eq_some h
      have hsum := toNat_add? hc
      have ih := ih hcs
      simp only [List.map_cons, List.sum_cons, List.length_cons, List.drop_succ_cons]
      omega

namespace Histogram
variable {a b c first : Histogram} {hs rest : List Histogram} {n : Nat}

/-- How many samples a histogram counts. -/
def samples (h : Histogram) : Nat := (h.counts.map UInt64.toNat).sum

/-- How many of them it counts behind the first `n` places. -/
def samplesPast (n : Nat) (h : Histogram) : Nat := ((h.counts.drop n).map UInt64.toNat).sum

theorem samplesPast_eq_zero_iff {h : Histogram} : h.samplesPast n = 0 ↔ ∀ k ∈ h.counts.drop n, k = 0 := by
  rw [samplesPast, List.sum_eq_zero_iff, List.forall_mem_map]
  simp only [← UInt64.toNat_inj, UInt64.toNat_zero]

/-- A histogram that is added to another leaves its boundaries and its places as they are. -/
structure AddsTo (a b c : Histogram) : Prop where
  boundaries : c.boundaries = a.boundaries
  places : c.counts.length = a.counts.length
  samples : c.samples + b.samplesPast a.counts.length = a.samples + b.samples

theorem addsTo_merge? (ha : ¬ a.isBlank) (hlike : a.isLike b) (h : a.merge? b = some c) : AddsTo a b c := by
  rw [merge?_of_isLike ha hlike] at h
  obtain ⟨counts, hcounts, rfl⟩ := Option.map_eq_some_iff.1 h
  exact ⟨rfl, CheckedAdd.length_addPairwise? hcounts, CheckedAdd.sum_addPairwise? hcounts⟩

/-- Of histograms that are alike, all samples are counted apart from those past the places of the first. -/
theorem samples_foldlM (ha : ¬ a.isBlank) (hlike : ∀ h ∈ hs, a.isLike h) (h : hs.foldlM merge? a = some b) :
    b.samples + (hs.map (samplesPast a.counts.length)).sum = a.samples + (hs.map samples).sum := by
  induction hs generalizing a with
  | nil =>
    cases h
    rfl
  | cons g hs ih =>
    obtain ⟨hg, hhs⟩ := List.forall_mem_cons.1 hlike
    rw [List.foldlM_cons] at h
    obtain ⟨c, hc, h⟩ := bind_eq_some.1 h
    obtain ⟨hboundaries, hplaces, hsamples⟩ := addsTo_merge? ha hg hc
    -- What was added to the first is like it and has its places, so the rest loses the same places to either.
    have ih := @ih c (by rwa [isBlank, hboundaries]) (by simpa only [isLike, hboundaries] using hhs) h
    rw [hplaces] at ih
    simp only [List.map_cons, List.sum_cons]
    omega

/-- No histogram counts samples at places that the first does not have. -/
def FirstCovers : List Histogram → Prop
  | [] => True
  | first :: rest => ∀ h ∈ rest, ∀ k ∈ h.counts.drop first.counts.length, k = 0

theorem firstCovers_of_length (h : ∀ g ∈ hs, g.counts.length = n) : FirstCovers hs := by
  cases hs with
  | nil => trivial
  | cons first rest =>
    obtain ⟨hfirst, hrest⟩ := List.forall_mem_cons.1 h
    intro g hg k hk
    rw [hfirst, List.drop_eq_nil_of_le (hrest g hg).le] at hk
    cases hk

/-- With boundaries, and equally many of them, histograms lose no samples just if the first covers the others. -/
theorem samples_of_alike (hn : n ≠ 0) (hlike : ∀ h ∈ first :: rest, h.boundaries.length = n)
    (h : (first :: rest).foldlM merge? {} = some b) :
    b.samples ≤ ((first :: rest).map samples).sum ∧
    (b.samples = ((first :: rest).map samples).sum ↔ FirstCovers (first :: rest)) := by
  obtain ⟨hfirst, hrest⟩ := List.forall_mem_cons.1 hlike
  have hboundaries : ¬ first.isBlank := by
    intro hblank
    rw [List.isEmpty_iff.1 hblank] at hfirst
    exact hn hfirst.symm
  rw [List.foldlM_cons, merge?_of_isBlank (a := {}) rfl] at h
  have hsum := samples_foldlM hboundaries (fun g hg => beq_of_eq (hfirst.trans (hrest g hg).symm)) h
  have hcovers : (rest.map (samplesPast first.counts.length)).sum = 0 ↔ FirstCovers (first :: rest) := by
    rw [List.sum_eq_zero_iff, List.forall_mem_map]
    exact forall₂_congr fun g _ => samplesPast_eq_zero_iff
  rw [← hcovers, List.map_cons, List.sum_cons]
  omega

end Histogram

/-! ### Under one name -/

namespace RuntimeMetrics
open Merge (slotBy? slotFrom? foldlM_slotFrom?_of_eq_nil foldlM_slotFrom?_of_ne_nil)
variable {reports : List RuntimeMetrics} {merged : RuntimeMetrics} {name : String}

/-- The histograms of the reports under a name. -/
def histogramsUnder (name : String) (reports : List RuntimeMetrics) : List Histogram :=
  reports.filterMap (·.histograms.get? name)

/-- How many samples are counted under a name. -/
def samplesUnder (name : String) (m : RuntimeMetrics) : Nat := ((m.histograms.get? name).map Histogram.samples).getD 0

theorem sum_samplesUnder (name : String) (reports : List RuntimeMetrics) :
    (reports.map (samplesUnder name)).sum = ((histogramsUnder name reports).map Histogram.samples).sum := by
  induction reports with
  | nil => rfl
  | cons r reports ih =>
    rw [List.map_cons, List.sum_cons, ih, histogramsUnder, histogramsUnder, List.filterMap_cons, samplesUnder]
    cases r.histograms.get? name with
    | none => exact Nat.zero_add _
    | some h => rfl

theorem tracks_histogram (name : String) :
    Tracks merge? (.field (·.histograms.get? name) (slotFrom? {} Histogram.merge?)) := by
  intro a b c h
  obtain ⟨-, -, hhistograms, -⟩ := tracks_parts
  exact KeyMap.get?_combine? (hhistograms h) name

/-- The histograms under one name are merged among themselves. -/
theorem histogram_foldlM (h : reports.foldlM merge? {} = some merged) (name : String) :
    (histogramsUnder name reports = [] → merged.histograms.get? name = none) ∧
    (histogramsUnder name reports ≠ [] → ∃ g, merged.histograms.get? name = some g ∧
      (histogramsUnder name reports).foldlM Histogram.merge? {} = some g) := by
  have hrun := (tracks_histogram name).run?_eq h
  have hreduce : (reports.map fun r => r.histograms.get? name).reduceOption = histogramsUnder name reports := by
    rw [List.reduceOption, List.filterMap_map]
    rfl
  rw [Part.run?_field] at hrun
  constructor
  · intro hnil
    rw [foldlM_slotFrom?_of_eq_nil (hreduce.trans hnil)] at hrun
    exact (Option.some.inj hrun).symm
  · intro hne
    rw [foldlM_slotFrom?_of_ne_nil (hreduce ▸ hne), hreduce] at hrun
    obtain ⟨g, hg, hget⟩ := Option.map_eq_some_iff.1 hrun
    exact ⟨g, hget.symm, hg⟩

/-- If all histograms under a name have equally many boundaries, merged reports have one under the name if a report has,
it counts no sample twice, and it counts every sample just if the first histogram covers the others. -/
theorem samples_eq_sum_iff {n : Nat} (hn : n ≠ 0)
    (hlike : ∀ r ∈ reports, ∀ h ∈ r.histograms.get? name, h.boundaries.length = n)
    (hmerged : reports.foldlM merge? {} = some merged) :
    ((merged.histograms.get? name).isSome ↔ ∃ r ∈ reports, (r.histograms.get? name).isSome) ∧
    merged.samplesUnder name ≤ (reports.map (samplesUnder name)).sum ∧
    (merged.samplesUnder name = (reports.map (samplesUnder name)).sum ↔
      Histogram.FirstCovers (histogramsUnder name reports)) := by
  obtain ⟨hnone, hsome⟩ := histogram_foldlM hmerged name
  have hmem : ∀ h ∈ histogramsUnder name reports, ∃ r ∈ reports, r.histograms.get? name = some h :=
    fun h hh => List.mem_filterMap.1 hh
  rw [sum_samplesUnder, samplesUnder]
  cases hhs : histogramsUnder name reports with
  | nil =>
    have hno : ¬ ∃ r ∈ reports, (r.histograms.get? name).isSome := by
      rintro ⟨r, hr, hget⟩
      rw [List.filterMap_eq_nil_iff.1 hhs r hr] at hget
      cases hget
    rw [hnone hhs]
    exact ⟨iff_of_false Bool.false_ne_true hno, Nat.le_refl _, iff_of_true rfl trivial⟩
  | cons first rest =>
    rw [hhs] at hmem hsome
    obtain ⟨g, hget, hg⟩ := hsome (List.cons_ne_nil _ _)
    obtain ⟨r, hr, hfirst⟩ := hmem first List.mem_cons_self
    have halike : ∀ h ∈ first :: rest, h.boundaries.length = n := by
      intro h hh
      obtain ⟨r, hr, hrh⟩ := hmem h hh
      exact hlike r hr h hrh
    rw [hget]
    refine ⟨iff_of_true rfl ⟨r, hr, Option.isSome_of_eq_some hfirst⟩, ?_⟩
    exact Histogram.samples_of_alike hn halike hg

/-- A report on how often a process paused, for less than one second and for less than two. -/
def pauses (counts : List UInt64) : RuntimeMetrics :=
  { histograms := .ofList [("pauses", { counts, boundaries := [.ofNat 0, .ofNat 1, .ofNat 2] })] }

/-- Two processes that paused, and one between them that says nothing of it. -/
theorem samples_twoProcesses : ∃ merged, [pauses [1, 2], {}, pauses [3, 4]].foldlM merge? {} = some merged ∧
    merged.samplesUnder "pauses" = 10 := by
  have hlike : ∀ r ∈ [pauses [1, 2], {}, pauses [3, 4]], ∀ h ∈ r.histograms.get? "pauses",
      h.boundaries.length = 3 := by decide +kernel
  have hsome : ([pauses [1, 2], {}, pauses [3, 4]].foldlM merge? {}).isSome := by decide +kernel
  have hcovers : Histogram.FirstCovers (histogramsUnder "pauses" [pauses [1, 2], {}, pauses [3, 4]]) := by
    have hlength : ∀ g ∈ histogramsUnder "pauses" [pauses [1, 2], {}, pauses [3, 4]], g.counts.length = 2 := by
      decide +kernel
    exact Histogram.firstCovers_of_length hlength
  obtain ⟨merged, hmerged⟩ := Option.isSome_iff_exists.1 hsome
  obtain ⟨-, -, hiff⟩ := samples_eq_sum_iff (by decide) hlike hmerged
  refine ⟨merged, hmerged, (hiff.2 hcovers).trans ?_⟩
  decide +kernel

/-- Texts of two reports, of a process that has not paused and of one that has. -/
def idleFirst : List Bytes := [
  utf8Bytes "\x7b\"histMetrics\":\x7b\"pauses\":\x7b\"Counts\":null,\"Buckets\":[0,1,2]\x7d\x7d\x7d",
  utf8Bytes "\x7b\"histMetrics\":\x7b\"pauses\":\x7b\"Counts\":[3,4],\"Buckets\":[0,1,2]\x7d\x7d\x7d"]

/-- The texts can be read and merged, but the pauses of the second process are not counted. -/
theorem samples_idleFirst : idleFirst.mapM codec.decode? = some [pauses [], pauses [3, 4]] ∧
    (∀ r ∈ [pauses [], pauses [3, 4]], ∀ h ∈ r.histograms.get? "pauses", h.boundaries.length = 3) ∧
    [pauses [], pauses [3, 4]].foldlM merge? {} = some (pauses []) ∧
    (pauses []).samplesUnder "pauses" = 0 ∧ ([pauses [], pauses [3, 4]].map (samplesUnder "pauses")).sum = 7 := by
  refine ⟨?_, ?_, ?_, ?_, ?_⟩
  all_goals decide +kernel

end RuntimeMetrics

end ClusterMetrics
