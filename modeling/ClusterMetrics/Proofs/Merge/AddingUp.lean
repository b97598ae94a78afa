import ClusterMetrics.Proofs.Merge.Records

/-! # Adding up

Values add up if neither their order nor their groups make a difference to their sum, nor to whether there is one.
Counters do, since the last sum decides on all sums before it (`addsUp_unsigned`). A record adds up if it absorbs part
by part and every part adds up (`AddsUp.of_splits`), and a map if its values do (`KeyMap.addsUp_combine?`). -/

namespace ClusterMetrics
open CheckedAdd (add?)

section
variable {α : Type} {op : α → α → Option α} {zero s a b c : α} {l l' : List α}

/-- A sum that need not exist, of which order and groups take nothing away. -/
structure AddsUp (op : α → α → Option α) (zero : α) : Prop where
  comm : ∀ a b, op a b = op b a
  assoc : ∀ ⦃a b c ab r⦄, op a b = some ab → op ab c = some r → ∃ bc, op b c = some bc ∧ op a bc = some r
  zero_op : ∀ a, op zero a = some a

namespace AddsUp

theorem of_total {op : α → α → α} (hcomm : ∀ a b, op a b = op b a) (hassoc : ∀ a b c, op (op a b) c = op a (op b c))
    (hzero : ∀ a, op zero a = a) : AddsUp (fun a b => some (op a b)) zero where
  comm a b := congrArg some (hcomm a b)
  assoc := by
    intro a b c ab r hab hr
    cases hab
    cases hr
    exact ⟨op b c, rfl, congrArg some (hassoc a b c).symm⟩
  zero_op a := congrArg some (hzero a)

variable (h : AddsUp op zero)
include h

theorem op_zero (a : α) : op a zero = some a := by rw [h.comm, h.zero_op]

/-- Both groupings have a sum, the same one, or neither has. -/
theorem bind_assoc (a b c : α) : ((op a b).bind fun ab => op ab c) = (op b c).bind (op a) := by
  refine Option.ext fun r => ?_
  rw [Option.bind_eq_some_iff, Option.bind_eq_some_iff]
  constructor
  · rintro ⟨ab, hab, hr⟩
    exact h.assoc hab hr
  · -- The other way round is the same with the values in reverse.
    rintro ⟨bc, hbc, hr⟩
    rw [h.comm] at hbc hr
    obtain ⟨ba, hba, hr⟩ := h.assoc hbc hr
    rw [h.comm] at hba hr
    exact ⟨ba, hba, hr⟩

theorem bind_right_comm (s a b : α) : ((op s a).bind fun t => op t b) = (op s b).bind fun t => op t a := by
  rw [h.bind_assoc, h.comm a b, ← h.bind_assoc]

theorem foldlM_perm (hperm : l.Perm l') (s : α) : l.foldlM op s = l'.foldlM op s := by
  induction hperm generalizing s with
  | nil => rfl
  | cons a _ ih =>
    rw [List.foldlM_cons, List.foldlM_cons]
    exact bind_congr ih
  | swap a b l =>
    simp only [List.foldlM_cons, Option.bind_eq_bind, ← Option.bind_assoc]
    rw [h.bind_right_comm]
  | trans _ _ ih ih' => rw [ih, ih']

/-- Values may be added up among themselves first. -/
theorem bind_foldlM (a b : α) (l : List α) : (l.foldlM op b).bind (op a) = (op a b).bind fun s => l.foldlM op s := by
  induction l generalizing b with
  | nil => simp
  | cons c l ih =>
    simp only [List.foldlM_cons, Option.bind_eq_bind, Option.bind_assoc, ih]
    rw [← Option.bind_assoc, ← h.bind_assoc, Option.bind_assoc]

theorem foldlM_zero (a : α) (l : List α) : (l.foldlM op zero).bind (op a) = l.foldlM op a := by
  rw [h.bind_foldlM, h.op_zero, Option.bind_some]

theorem foldlM_append (l l' : List α) :
    (l ++ l').foldlM op zero = (l.foldlM op zero).bind fun a => (l'.foldlM op zero).bind (op a) := by
  rw [List.foldlM_append]
  exact bind_congr fun a => (h.foldlM_zero a l').symm

theorem orderFree : OrderFree op Eq := by
  intro s a b l l' hperm ha hb
  rw [h.foldlM_perm hperm, hb] at ha
  exact (Option.some.inj ha).symm

end AddsUp
end

/-! ### Parts that add up -/

section
variable {σ : Type} {absorb? : σ → σ → Option σ} {parts : Set (Part σ σ)} {zero : σ}

/-- The part is a field that adds up, beginning with what it is in `zero`. -/
def Part.IsSummand (zero : σ) (p : Part σ σ) : Prop :=
  ∃ (κ : Type) (f : σ → κ) (op : κ → κ → Option κ), p = .field f op ∧ AddsUp op (f zero)

theorem Part.isSummand_field {κ : Type} {f : σ → κ} {op : κ → κ → Option κ} (h : AddsUp op (f zero)) :
    (Part.field f op).IsSummand zero := ⟨κ, f, op, rfl, h⟩

variable (h : Splits absorb? parts) (hext : ∀ a b, (∀ p ∈ parts, p.kept a = p.kept b) → a = b)
include h hext

theorem Splits.eq_some_iff {a b c : σ} :
    absorb? a b = some c ↔ ∀ p ∈ parts, p.absorb? (p.kept a) (p.share b) = some (p.kept c) := by
  refine ⟨fun hc p hp => h.tracks p hp hc, fun hc => ?_⟩
  have hsome : (absorb? a b).isSome := h.isSome fun p hp => by rw [hc p hp, Option.isSome_some]
  obtain ⟨d, hd⟩ := Option.isSome_iff_exists.1 hsome
  rw [hd, hext d c fun p hp => Option.some.inj ((h.tracks p hp hd).symm.trans (hc p hp))]

/-- Nothing is to be seen of a sum but the sums of the parts. -/
theorem AddsUp.of_splits (hparts : ∀ p ∈ parts, p.IsSummand zero) : AddsUp absorb? zero where
  comm a b := by
    refine Option.ext fun c => ?_
    rw [h.eq_some_iff hext, h.eq_some_iff hext]
    refine forall₂_congr fun p hp => ?_
    obtain ⟨κ, f, op, rfl, hop⟩ := hparts p hp
    exact iff_of_eq (congrArg (· = some (f c)) (hop.comm (f a) (f b)))
  assoc := by
    intro a b c ab r hab hr
    have hbc : (absorb? b c).isSome := by
      refine h.isSome fun p hp => ?_
      have htracks := h.tracks p hp
      obtain ⟨κ, f, op, rfl, hop⟩ := hparts p hp
      obtain ⟨bc, hbc, -⟩ := hop.assoc (htracks hab) (htracks hr)
      exact Option.isSome_iff_exists.2 ⟨bc, hbc⟩
    obtain ⟨bc, hbc⟩ := Option.isSome_iff_exists.1 hbc
    refine ⟨bc, hbc, (h.eq_some_iff hext).2 fun p hp => ?_⟩
    have htracks := h.tracks p hp
    obtain ⟨κ, f, op, rfl, hop⟩ := hparts p hp
    obtain ⟨bc', hbc', hr'⟩ := hop.assoc (htracks hab) (htracks hr)
    obtain rfl : bc' = f bc := Option.some.inj (hbc'.symm.trans (htracks hbc))
    exact hr'
  zero_op a := by
    refine (h.eq_some_iff hext).2 fun p hp => ?_
    obtain ⟨κ, f, op, rfl, hop⟩ := hparts p hp
    exact hop.zero_op (f a)

end

/-! ### Counters and times -/

theorem CheckedAdd.add?_eq_some_iff {a b c : UInt64} : add? a b = some c ↔ c.toNat = a.toNat + b.toNat := by
  refine ⟨toNat_add?, fun h => ?_⟩
  have hsome : (add? a b).isSome := isSome_add?_unsigned.2 (h ▸ c.toNat_lt)
  obtain ⟨d, hd⟩ := Option.isSome_iff_exists.1 hsome
  rw [hd, UInt64.toNat_inj.1 ((toNat_add? hd).trans h.symm)]

theorem CheckedAdd.addsUp_unsigned : AddsUp (add? (α := UInt64)) 0 where
  comm a b := by
    refine Option.ext fun c => ?_
    rw [add?_eq_some_iff, add?_eq_some_iff, Nat.add_comm]
  assoc := by
    intro a b c ab r hab hr
    rw [add?_eq_some_iff] at hab hr
    have hlt := r.toNat_lt
    have hsome : (add? b c).isSome := isSome_add?_unsigned.2 (by omega)
    obtain ⟨bc, hbc⟩ := Option.isSome_iff_exists.1 hsome
    have htotal := toNat_add? hbc
    exact ⟨bc, hbc, add?_eq_some_iff.2 (by omega)⟩
  zero_op a := add?_eq_some_iff.2 (by simp)

theorem Timestamp.addsUp_latest : AddsUp (fun t u : Timestamp => some (t.latest u)) .zero :=
  .of_total latest_comm latest_assoc zero_latest

/-! ### Slots and maps -/

section
variable {κ : Type} {z : κ} {op : κ → κ → Option κ}

theorem Merge.none_slotFrom? (h : AddsUp op z) (o : Option κ) : slotFrom? z op none o = some o := by
  cases o with
  | none => rfl
  | some x => exact congrArg (Option.map some) (h.zero_op x)

theorem Merge.addsUp_slotFrom? (h : AddsUp op z) : AddsUp (slotFrom? z op) none where
  comm a b := by
    cases a <;> cases b <;> simp [slotFrom?, slotBy?, h.zero_op, h.comm]
  assoc := by
    -- An empty slot takes no part in the sum of the other two.
    rintro (_ | x) b c ab r hab hr
    · rw [none_slotFrom? h] at hab
      cases hab
      exact ⟨r, hr, none_slotFrom? h r⟩
    cases b with
    | none =>
      cases hab
      exact ⟨c, none_slotFrom? h c, hr⟩
    | some y =>
    cases c with
    | none =>
      cases hr
      exact ⟨some y, rfl, hab⟩
    | some w =>
      obtain ⟨xy, hxy, rfl⟩ := Option.map_eq_some_iff.1 hab
      obtain ⟨t, ht, rfl⟩ := Option.map_eq_some_iff.1 hr
      obtain ⟨yw, hyw, hx⟩ := h.assoc hxy ht
      exact ⟨some yw, congrArg (Option.map some) hyw, congrArg (Option.map some) hx⟩
  zero_op := none_slotFrom? h

theorem KeyMap.addsUp_combine? (h : AddsUp op z) : AddsUp (combine? fun old v => op (old.getD z) v) .empty := by
  refine .of_splits (splits_combine? _) ?_ ?_
  · intro m n hget
    exact ext_get? fun k => hget _ ⟨k, rfl⟩
  · rintro p ⟨k, rfl⟩
    exact Part.isSummand_field (Merge.addsUp_slotFrom? h)

theorem Merge.addsUp_sumByKey? : AddsUp (sumByKey? (α := UInt64)) .empty :=
  KeyMap.addsUp_combine? CheckedAdd.addsUp_unsigned

end

/-! ### Records -/

theorem AddsUp.of_counters {σ : Type} {absorb? : σ → σ → Option σ} {fs : List (σ → UInt64)} {zero : σ}
    (h : Splits absorb? (Part.fields fs add?)) (hext : ∀ a b, (∀ f ∈ fs, f a = f b) → a = b)
    (hzero : ∀ f ∈ fs, f zero = 0) : AddsUp absorb? zero := by
  refine .of_splits h (fun a b hfields => hext a b (Part.forall_mem_fields.1 hfields)) ?_
  refine Part.forall_mem_fields.2 fun f hf => Part.isSummand_field ?_
  rw [hzero f hf]
  exact CheckedAdd.addsUp_unsigned

theorem OperationTotals.addsUp : AddsUp merge? {} :=
  .of_counters splits (fun _ _ => ext_counters) (by simp [counters])

theorem LastMinute.addsUp : AddsUp merge? {} := by
  refine .of_splits splits (fun a b h => congrArg LastMinute.mk (h _ rfl)) ?_
  rintro p rfl
  exact Part.isSummand_field (KeyMap.addsUp_combine? OperationTotals.addsUp)

theorem BlockDeviceCounters.addsUp : AddsUp merge? {} :=
  .of_counters splits (fun _ _ => ext_counters) (by simp [counters])

theorem DriveMetrics.addsUp : AddsUp merge? {} := by
  refine .of_splits splits ?_ ?_
  · intro a b h
    simp only [parts, Set.forall_mem_insert, Set.mem_singleton_iff, forall_eq] at h
    cases a
    cases b
    simp_all
  · rintro p (rfl | rfl | rfl | rfl | rfl | rfl | rfl)
    · exact Part.isSummand_field Timestamp.addsUp_latest
    · exact Part.isSummand_field CheckedAdd.addsUp_unsigned
    · exact Part.isSummand_field CheckedAdd.addsUp_unsigned
    · exact Part.isSummand_field CheckedAdd.addsUp_unsigned
    · exact Part.isSummand_field Merge.addsUp_sumByKey?
    · exact Part.isSummand_field LastMinute.addsUp
    · exact Part.isSummand_field BlockDeviceCounters.addsUp

theorem OsMetrics.addsUp : AddsUp merge? {} := by
  refine .of_splits splits ?_ ?_
  · intro a b h
    simp only [parts, Set.forall_mem_insert, Set.mem_singleton_iff, forall_eq] at h
    cases a
    cases b
    simp_all
  · rintro p (rfl | rfl | rfl)
    · exact Part.isSummand_field Timestamp.addsUp_latest
    · exact Part.isSummand_field Merge.addsUp_sumByKey?
    · exact Part.isSummand_field LastMinute.addsUp

end ClusterMetrics
