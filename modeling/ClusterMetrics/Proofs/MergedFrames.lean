import ClusterMetrics.Frame
import ClusterMetrics.Proofs.SortedTexts

/-! # Frames merged in sequence -/

namespace ClusterMetrics.Frame

/-- The frames merged in their order, beginning with the empty one. -/
def mergeAll? (fs : List Frame) : Option Frame := fs.foldlM merge? {}

variable {a b c : Frame} {fs : List Frame}

theorem hosts_merge? (h : a.merge? b = some c) : c.hosts = Merge.sortTexts (a.hosts ++ b.hosts) := by
  obtain ⟨total, -, hc⟩ := Option.bind_eq_some_iff.1 h
  cases hc
  rfl

theorem hosts_foldlM_merge? {ts : List String} (h : fs.foldlM merge? a = some c)
    (ha : a.hosts = Merge.sortTexts ts) : c.hosts = Merge.sortTexts (ts ++ fs.flatMap hosts) := by
  induction fs generalizing a ts with
  | nil =>
    cases h
    rw [ha, List.flatMap_nil, List.append_nil]
  | cons f fs ih =>
    rw [List.foldlM_cons] at h
    obtain ⟨b, hb, hc⟩ := Option.bind_eq_some_iff.1 h
    have hhosts : b.hosts = Merge.sortTexts (ts ++ f.hosts) := by
      rw [hosts_merge? hb, ha, Merge.sortTexts_append]
    rw [ih hc hhosts, List.flatMap_cons, List.append_assoc]

/-- The hosts of all frames, sorted, repetitions kept. -/
theorem hosts_mergeAll? (h : mergeAll? fs = some c) : c.hosts = Merge.sortTexts (fs.flatMap hosts) := by
  have hnil : ({} : Frame).hosts = Merge.sortTexts [] := List.mergeSort_nil.symm
  exact hosts_foldlM_merge? h hnil

end ClusterMetrics.Frame
