import ClusterMetrics.Binary64
import ClusterMetrics.KeyMap

/-! # Equality of values that hold doubles

Such values are compared as numbers: the two zeros are equal, and a value that holds `nan` is equal to
none, not even to itself. -/

namespace ClusterMetrics

class NumEq (α : Type) where
  numEq : α → α → Bool

namespace NumEq
variable {α : Type}

instance : NumEq Binary64 := ⟨Binary64.numEq⟩

def option [NumEq α] : Option α → Option α → Bool
  | none, none => true
  | some a, some b => numEq a b
  | _, _ => false

instance [NumEq α] : NumEq (Option α) := ⟨option⟩

def list [NumEq α] : List α → List α → Bool
  | [], [] => true
  | a :: as, b :: bs => numEq a b && list as bs
  | _, _ => false

instance [NumEq α] : NumEq (List α) := ⟨list⟩

def entries [NumEq α] : List (String × α) → List (String × α) → Bool
  | [], [] => true
  | (k, a) :: as, (l, b) :: bs => k == l && numEq a b && entries as bs
  | _, _ => false

instance [NumEq α] : NumEq (KeyMap α) := ⟨fun m n => entries m.entries n.entries⟩

end NumEq

end ClusterMetrics
