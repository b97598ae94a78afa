import ClusterMetrics.Merge

/-! # Sorted texts

Sorting by a text, or by any other key in a total order, puts what is given into the order of the keys. Texts come into
one order, whatever order they were given in. -/

namespace ClusterMetrics

theorem pairwise_mergeSort_le {α β : Type} [LE β] [DecidableLE β] [Std.IsLinearPreorder β] (key : α → β) (l : List α) :
    (l.mergeSort fun p q => key p ≤ key q).Pairwise fun p q => key p ≤ key q := by
  have htrans : ∀ p q r : α, decide (key p ≤ key q) = true → decide (key q ≤ key r) = true →
      decide (key p ≤ key r) = true := by
    intro p q r hpq hqr
    exact decide_eq_true (Std.le_trans (of_decide_eq_true hpq) (of_decide_eq_true hqr))
  have htotal : ∀ p q : α, (decide (key p ≤ key q) || decide (key q ≤ key p)) = true := by
    intro p q
    rcases Std.le_total (a := key p) (b := key q) with h | h
    · rw [decide_eq_true h, Bool.true_or]
    · rw [decide_eq_true h, Bool.or_true]
  exact (List.pairwise_mergeSort htrans htotal l).imp of_decide_eq_true

namespace Merge
variable {ts us : List String}

theorem sortTexts_perm (ts : List String) : (sortTexts ts).Perm ts := List.mergeSort_perm ..

theorem pairwise_sortTexts (ts : List String) : (sortTexts ts).Pairwise (· ≤ ·) := pairwise_mergeSort_le id ts

theorem eq_sortTexts_of_perm (hp : us.Perm ts) (hs : us.Pairwise (· ≤ ·)) : us = sortTexts ts :=
  (hp.trans (sortTexts_perm ts).symm).eq_of_pairwise (fun _ _ _ _ => String.le_antisymm) hs (pairwise_sortTexts ts)

theorem sortTexts_of_pairwise (h : ts.Pairwise (· ≤ ·)) : sortTexts ts = ts := (eq_sortTexts_of_perm .rfl h).symm

theorem sortTexts_congr (h : us.Perm ts) : sortTexts us = sortTexts ts :=
  eq_sortTexts_of_perm ((sortTexts_perm us).trans h) (pairwise_sortTexts us)

theorem sortTexts_append (ts us : List String) : sortTexts (sortTexts ts ++ us) = sortTexts (ts ++ us) :=
  sortTexts_congr ((sortTexts_perm ts).append_right us)

theorem perm_of_sortTexts_eq (h : sortTexts us = sortTexts ts) : us.Perm ts :=
  (sortTexts_perm us).symm.trans (h ▸ sortTexts_perm ts)

end Merge

end ClusterMetrics
