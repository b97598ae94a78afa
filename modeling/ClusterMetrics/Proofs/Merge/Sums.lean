import ClusterMetrics.Proofs.Merge.Parts

/-! # Sums that stay in range

Counters that are added up one after the other come to the sum of all of them, unless it leaves the range of
their type. For unsigned ones the last sum decides that (`isSome_foldlM_unsigned`), for signed ones every sum on
the way (`isSome_foldlM_signed`). -/

namespace ClusterMetrics.CheckedAdd

/-! ### Unsigned counters -/

/-- The counters have a sum of their type. -/
def SumFits (ns : List UInt64) : Prop := (ns.map UInt64.toNat).sum < 2 ^ 64

section
variable {a b c : UInt64} {ns ms : List UInt64}

theorem SumFits.perm (h : SumFits ns) (hperm : ns.Perm ms) : SumFits ms := by
  rwa [SumFits, ← (hperm.map UInt64.toNat).sum_eq]

theorem toNat_add? (h : add? a b = some c) : c.toNat = a.toNat + b.toNat := by
  obtain ⟨hlt, hc⟩ := Option.ite_none_right_eq_some.1 h
  cases hc
  rw [UInt64.toNat_add]
  exact Nat.mod_eq_of_lt hlt

theorem isSome_add?_unsigned : (add? a b).isSome ↔ a.toNat + b.toNat < 2 ^ 64 := by
  change (if a.toNat + b.toNat < 2 ^ 64 then some (a + b) else none).isSome ↔ _
  split
  next hlt => exact iff_of_true rfl hlt
  next hlt => exact iff_of_false Bool.false_ne_true hlt

theorem orderFree_unsigned : OrderFree (add? (α := UInt64)) Eq :=
  .of_sum (fun _ _ _ => toNat_add?) fun _ _ => UInt64.toNat_inj.1

theorem isSome_foldlM_unsignedFrom : (ns.foldlM add? a).isSome ↔ SumFits (a :: ns) := by
  rw [SumFits, List.map_cons, List.sum_cons]
  induction ns generalizing a with
  | nil => simpa using a.toNat_lt
  | cons n ns ih =>
    rw [List.foldlM_cons, List.map_cons, List.sum_cons, ← Nat.add_assoc]
    cases hs : add? a n with
    | none =>
      have hover : ¬ a.toNat + n.toNat < 2 ^ 64 := by
        rw [← isSome_add?_unsigned, hs]
        exact Bool.false_ne_true
      exact iff_of_false Bool.false_ne_true fun h => hover (by omega)
    | some s =>
      rw [← toNat_add? hs]
      exact ih

theorem isSome_foldlM_unsigned : (ns.foldlM add? 0).isSome ↔ SumFits ns := by
  rw [isSome_foldlM_unsignedFrom, SumFits, List.map_cons, List.sum_cons, UInt64.toNat_zero, Nat.zero_add, SumFits]

end

/-! ### Signed counters -/

def InSignedRange (n : Int) : Prop := -2 ^ 63 ≤ n ∧ n < 2 ^ 63

/-- Whatever number of the counters is taken from the beginning, they have a sum of their type. -/
def SumsFit (ns : List Int64) : Prop := ∀ ms, ms <+: ns → InSignedRange (ms.map Int64.toInt).sum

section
variable {a b c : Int64} {ns : List Int64}

theorem toInt_add? (h : add? a b = some c) : c.toInt = a.toInt + b.toInt := by
  obtain ⟨⟨hle, hlt⟩, hc⟩ := Option.ite_none_right_eq_some.1 h
  cases hc
  rw [Int64.toInt_add]
  exact Int.bmod_eq_of_le hle hlt

theorem isSome_add?_signed : (add? a b).isSome ↔ InSignedRange (a.toInt + b.toInt) := by
  change (if -2 ^ 63 ≤ a.toInt + b.toInt ∧ a.toInt + b.toInt < 2 ^ 63 then some (a + b) else none).isSome ↔ _
  split
  next hrange => exact iff_of_true rfl hrange
  next hrange => exact iff_of_false Bool.false_ne_true hrange

theorem inSignedRange_toInt (a : Int64) : InSignedRange a.toInt := ⟨a.le_toInt, a.toInt_lt⟩

theorem orderFree_signed : OrderFree (add? (α := Int64)) Eq :=
  .of_sum (fun _ _ _ => toInt_add?) fun _ _ => Int64.toInt_inj.1

theorem isSome_foldlM_signedFrom :
    (ns.foldlM add? a).isSome ↔ ∀ ms, ms <+: ns → InSignedRange (a.toInt + (ms.map Int64.toInt).sum) := by
  induction ns generalizing a with
  | nil =>
    refine iff_of_true rfl fun ms hms => ?_
    rw [List.prefix_nil.1 hms, List.map_nil, List.sum_nil, Int.add_zero]
    exact inSignedRange_toInt a
  | cons n ns ih =>
    rw [List.foldlM_cons]
    cases hs : add? a n with
    | none =>
      have hover : ¬ InSignedRange (a.toInt + n.toInt) := by
        rw [← isSome_add?_signed, hs]
        exact Bool.false_ne_true
      refine iff_of_false Bool.false_ne_true fun h => hover ?_
      simpa using h [n] ((List.prefix_cons_inj n).2 List.nil_prefix)
    | some s =>
      refine ih.trans ?_
      rw [toInt_add? hs]
      constructor
      · intro h ms hms
        rcases List.prefix_cons_iff.1 hms with rfl | ⟨ms', rfl, hms'⟩
        · simpa using inSignedRange_toInt a
        · rw [List.map_cons, List.sum_cons, ← Int.add_assoc]
          exact h ms' hms'
      · intro h ms hms
        have hcons := h (n :: ms) ((List.prefix_cons_inj n).2 hms)
        rwa [List.map_cons, List.sum_cons, ← Int.add_assoc] at hcons

theorem isSome_foldlM_signed : (ns.foldlM add? 0).isSome ↔ SumsFit ns := by
  rw [isSome_foldlM_signedFrom, SumsFit]
  simp

end

/-! ### Counters added in pairs -/

/-- What becomes of a place of the first list, given the same place of the second. -/
def addAt? {α : Type} [CheckedAdd α] : Option α → Option α → Option (Option α)
  | some a, some b => (add? a b).map some
  | slot, _ => some slot

section
variable {α : Type} [CheckedAdd α] {as bs cs : List α}

theorem addAt?_none_right (slot : Option α) : addAt? slot none = some slot := by cases slot <;> rfl

theorem addPairwise?_cons_eq_some {a b : α} (h : addPairwise? (a :: as) (b :: bs) = some cs) :
    ∃ c cs', add? a b = some c ∧ addPairwise? as bs = some cs' ∧ cs = c :: cs' := by
  rw [addPairwise?] at h
  obtain ⟨c, hc, h⟩ := Option.bind_eq_some_iff.1 h
  obtain ⟨cs', hcs, h⟩ := Option.bind_eq_some_iff.1 h
  cases h
  exact ⟨c, cs', hc, hcs, rfl⟩

theorem addPairwise?_nil_left (bs : List α) : addPairwise? [] bs = some [] := by cases bs <;> rfl

theorem getElem?_addPairwise? (h : addPairwise? as bs = some cs) (i : Nat) : addAt? as[i]? bs[i]? = some cs[i]? := by
  induction as generalizing bs cs i with
  | nil =>
    rw [addPairwise?_nil_left] at h
    cases h
    rfl
  | cons a as ih =>
    cases bs with
    | nil =>
      cases h
      exact addAt?_none_right _
    | cons b bs =>
      obtain ⟨c, cs', hc, hcs, rfl⟩ := addPairwise?_cons_eq_some h
      cases i with
      | zero => exact congrArg (Option.map some) hc
      | succ i => exact ih hcs i

theorem isSome_addPairwise? (h : ∀ i : Nat, (addAt? as[i]? bs[i]?).isSome) : (addPairwise? as bs).isSome := by
  induction as generalizing bs with
  | nil => rw [addPairwise?_nil_left, Option.isSome_some]
  | cons a as ih =>
    cases bs with
    | nil => rfl
    | cons b bs =>
      have hfirst : (add? a b).isSome := by
        have h0 : ((add? a b).map some).isSome := h 0
        rwa [Option.isSome_map] at h0
      obtain ⟨c, hc⟩ := Option.isSome_iff_exists.1 hfirst
      obtain ⟨cs, hcs⟩ := Option.isSome_iff_exists.1 (ih fun i => h (i + 1))
      rw [addPairwise?, hc, hcs]
      rfl

/-- Lists are added in pairs place by place. -/
theorem splits_addPairwise? :
    Splits (addPairwise? (α := α)) {p | ∃ i : Nat, p = .field (fun as => as[i]?) addAt?} where
  tracks := by
    rintro p ⟨i, rfl⟩ as bs cs h
    exact getElem?_addPairwise? h i
  isSome := by
    intro as bs h
    exact isSome_addPairwise? fun i => h _ ⟨i, rfl⟩

theorem foldlM_addAt?_none (os : List (Option α)) : os.foldlM addAt? none = some none := by
  induction os with
  | nil => rfl
  | cons o os ih => exact ih

theorem foldlM_addAt?_some (os : List (Option α)) (a : α) :
    os.foldlM addAt? (some a) = (os.reduceOption.foldlM add? a).map some := by
  induction os generalizing a with
  | nil => rfl
  | cons o os ih =>
    cases o with
    | none => exact ih a
    | some b =>
      rw [List.foldlM_cons, List.reduceOption_cons_of_some, List.foldlM_cons, addAt?]
      cases add? a b with
      | none => rfl
      | some c => exact ih c

end

theorem isSome_foldlM_addPairwise? {ns : List UInt64} {l : List (List UInt64)} :
    (l.foldlM addPairwise? ns).isSome ↔ ∀ i < ns.length, SumFits ((ns :: l).filterMap (·[i]?)) := by
  have hplace : ∀ i : Nat, ((l.map (·[i]?)).foldlM addAt? ns[i]?).isSome ↔
      (i < ns.length → SumFits ((ns :: l).filterMap (·[i]?))) := by
    intro i
    cases hi : ns[i]? with
    | none =>
      rw [foldlM_addAt?_none]
      exact iff_of_true rfl fun hlt => absurd hlt (List.getElem?_eq_none_iff.1 hi).not_gt
    | some n =>
      have hlt : i < ns.length := (List.getElem?_eq_some_iff.1 hi).1
      have hcons : (ns :: l).filterMap (·[i]?) = n :: l.filterMap (·[i]?) := List.filterMap_cons_some hi
      rw [foldlM_addAt?_some, Option.isSome_map, isSome_foldlM_unsignedFrom, List.reduceOption, List.filterMap_map,
        hcons]
      exact ⟨fun h _ => h, fun h => h hlt⟩
  rw [splits_addPairwise?.isSome_foldlM]
  constructor
  · intro h i
    exact (hplace i).1 (h _ ⟨i, rfl⟩)
  · rintro h p ⟨i, rfl⟩
    exact (hplace i).2 (h i)

end ClusterMetrics.CheckedAdd
