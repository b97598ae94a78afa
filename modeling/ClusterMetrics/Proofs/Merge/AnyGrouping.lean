import ClusterMetrics.Proofs.Merge.AddingUp

/-! # Merging in any order and in any groups

Values may be merged one after the other, or in groups that are merged again, on any number of levels: each way is
a plan (`MergePlan`). Main statement: for the metrics of drives and of the operating system and for what these
consist of, all plans with the same values come to the same result, or none of them has one
(`mergesFreely_drivesAndOs`). -/

namespace ClusterMetrics

/-- A way to merge some values. -/
inductive MergePlan (α : Type) where
  | empty
  | value (a : α)
  | merged (into other : MergePlan α)

namespace MergePlan
variable {α : Type} [Merge α]

/-- The values that are merged, from left to right. -/
def values : MergePlan α → List α
  | empty => []
  | value a => [a]
  | merged p q => p.values ++ q.values

/-- What the values come to, unless a counter leaves its range on the way. -/
def result? : MergePlan α → Option α
  | empty => some Merge.empty
  | value a => some a
  | merged p q => do Merge.merge? (← p.result?) (← q.result?)

/-- If values add up, merging them one after the other comes to the same as any plan. -/
theorem result?_eq_foldlM (h : AddsUp Merge.merge? (Merge.empty : α)) (p : MergePlan α) :
    p.result? = p.values.foldlM Merge.merge? Merge.empty := by
  induction p with
  | empty => rfl
  | value a => rw [result?, values, List.foldlM_cons, h.zero_op]; rfl
  | merged p q ihp ihq => rw [result?, values, h.foldlM_append, ihp, ihq]; rfl

end MergePlan

/-- Neither the order nor the groups in which values are merged make a difference, nor do empty values. -/
structure MergesFreely (α : Type) [Merge α] : Prop where
  result?_eq : ∀ p q : MergePlan α, p.values.Perm q.values → p.result? = q.result?
  merge?_empty : ∀ a : α, Merge.merge? a Merge.empty = some a
  empty_merge? : ∀ a : α, Merge.merge? Merge.empty a = some a

theorem AddsUp.mergesFreely {α : Type} [Merge α] (h : AddsUp Merge.merge? (Merge.empty : α)) : MergesFreely α where
  result?_eq p q hperm := by
    rw [p.result?_eq_foldlM h, q.result?_eq_foldlM h, h.foldlM_perm hperm]
  merge?_empty := h.op_zero
  empty_merge? := h.zero_op

theorem mergesFreely_drivesAndOs :
    MergesFreely OperationTotals ∧ MergesFreely BlockDeviceCounters ∧ MergesFreely DriveMetrics ∧
      MergesFreely OsMetrics :=
  ⟨OperationTotals.addsUp.mergesFreely, BlockDeviceCounters.addsUp.mergesFreely, DriveMetrics.addsUp.mergesFreely,
    OsMetrics.addsUp.mergesFreely⟩

end ClusterMetrics
