import ClusterMetrics.CheckedAdd
import ClusterMetrics.KeyMap
import ClusterMetrics.Timestamp

/-! # Merging

What several nodes report is merged into one value of the same type, beginning with the empty one.
A merge has no result if a counter leaves its range. -/

namespace ClusterMetrics

/-- Types whose values absorb one another. -/
class Merge (α : Type) where
  empty : α
  merge? : α → α → Option α

namespace Merge
variable {α : Type}

/-- An absent value is absorbed without effect, and a value by an absent one as by the empty one. -/
def slot? [Merge α] (slot other : Option α) : Option (Option α) :=
  match other with
  | none => some slot
  | some b => (merge? (slot.getD empty) b).map some

/-- Each value of `other` absorbed by the one with its key. -/
def byKey? [Merge α] (m other : KeyMap α) : Option (KeyMap α) :=
  m.combine? (fun old b => merge? (old.getD empty) b) other

/-- Each value of `other` added to the one with its key. -/
def sumByKey? [CheckedAdd α] (m other : KeyMap α) : Option (KeyMap α) :=
  m.combine? (fun old b => CheckedAdd.add? (old.getD CheckedAdd.zero) b) other

/-- The first of two texts unless it is empty. -/
def firstNonempty (a b : String) : String := if a.isEmpty then b else a

/-- Texts in ascending order, repetitions kept. -/
def sortTexts (ts : List String) : List String := ts.mergeSort fun s t => s ≤ t

end Merge

end ClusterMetrics
