import ClusterMetrics.Category

/-! # Masks as sets of bits

A mask is known by its bits (`CategoryMask.ext_isSet`), and every category has one bit at a place of its own. What a
union, a common part or a list of categories comes to is said bit by bit. -/

namespace ClusterMetrics

/-- Where the bit of the category stands. -/
def Category.place : Category → Nat
  | scanner => 0
  | disk => 1
  | os => 2
  | batchJobs => 3
  | siteResync => 4
  | network => 5
  | memory => 6
  | cpu => 7
  | rpc => 8
  | runtime => 9

theorem Category.toBitVec_bit (c : Category) : c.bit.toBitVec = BitVec.twoPow 32 c.place := by cases c <;> rfl

theorem Category.place_lt (c : Category) : c.place < 32 := by cases c <;> decide

namespace CategoryMask
variable {a b m : CategoryMask} {c : Category} {cs : List Category} {i : Nat}

def isSet (m : CategoryMask) (i : Nat) : Bool := m.bits.toBitVec.getLsbD i

theorem ext_isSet (h : ∀ i, a.isSet i = b.isSet i) : a = b := by
  obtain ⟨x⟩ := a
  obtain ⟨y⟩ := b
  have hbits : x = y := UInt32.eq_of_toBitVec_eq (BitVec.eq_of_getLsbD_eq fun i _ => h i)
  rw [hbits]

/-- The bits that both masks have. -/
def inter (a b : CategoryMask) : CategoryMask := ⟨a.bits &&& b.bits⟩

@[simp] theorem isSet_none : none.isSet i = false := BitVec.getLsbD_zero

@[simp] theorem isSet_union : (a.union b).isSet i = (a.isSet i || b.isSet i) := BitVec.getLsbD_or

@[simp] theorem isSet_inter : (a.inter b).isSet i = (a.isSet i && b.isSet i) := BitVec.getLsbD_and

theorem isSet_single : (single c).isSet i = (c.place == i) := by
  have hplace := c.place_lt
  rw [isSet, single, c.toBitVec_bit, BitVec.getLsbD_twoPow, Bool.beq_eq_decide_eq, decide_eq_true hplace, Bool.true_and]

/-- A category is selected if its bit is set. -/
theorem has_eq_isSet (m : CategoryMask) (c : Category) : m.has c = m.isSet c.place := by
  rw [has, contains, single, Bool.eq_iff_iff, beq_iff_eq, ← UInt32.toBitVec_inj, UInt32.toBitVec_and, c.toBitVec_bit,
    BitVec.and_twoPow, isSet]
  cases m.bits.toBitVec.getLsbD c.place with
  | true => exact iff_of_true rfl rfl
  | false =>
    refine iff_of_false (fun hzero => ?_) Bool.false_ne_true
    have hbit := congrArg (BitVec.getLsbD · c.place) hzero
    rw [if_neg Bool.false_ne_true] at hbit
    simp [c.place_lt] at hbit

@[simp] theorem has_inter : (a.inter b).has c = (a.has c && b.has c) := by
  rw [has_eq_isSet, has_eq_isSet, has_eq_isSet, isSet_inter]

theorem isSet_ofCategories : (ofCategories cs).isSet i = cs.any (·.place == i) := by
  have hfrom : ∀ m : CategoryMask, (cs.foldl (fun m c => m.union (single c)) m).isSet i =
      (m.isSet i || cs.any (·.place == i)) := by
    induction cs with
    | nil => exact fun m => (Bool.or_false _).symm
    | cons c cs ih =>
      intro m
      rw [List.foldl_cons, ih, isSet_union, isSet_single, List.any_cons, Bool.or_assoc]
  rw [ofCategories, hfrom, isSet_none, Bool.false_or]

end CategoryMask

end ClusterMetrics
