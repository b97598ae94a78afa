import Mathlib

/-! # Lists read element by element

A list is read exactly if each of its elements is (`mapM_eq_ok_iff`), and otherwise fails as its first element does that
is not read (`mapM_eq_error_iff`). A state that takes in what is read of one element after the other is what it becomes
once all of them are read (`foldlM_eq_map_mapM`). -/

namespace ClusterMetrics

/-! ### Steps -/

namespace Except
variable {α β ε : Type} {x : Except ε α} {f : α → Except ε β} {g : α → β} {b : β} {e : ε}

theorem bind_eq_ok_iff : (x >>= f) = .ok b ↔ ∃ a, x = .ok a ∧ f a = .ok b := by
  cases x with
  | error e => simp [bind, Except.bind]
  | ok a => simp [bind, Except.bind]

theorem bind_eq_error_iff : (x >>= f) = .error e ↔ x = .error e ∨ ∃ a, x = .ok a ∧ f a = .error e := by
  cases x with
  | error e => simp [bind, Except.bind]
  | ok a => simp [bind, Except.bind]

theorem map_eq_ok_iff : x.map g = .ok b ↔ ∃ a, x = .ok a ∧ g a = b := by
  cases x with
  | error e => simp [Except.map]
  | ok a => simp [Except.map]

theorem map_eq_error_iff : x.map g = .error e ↔ x = .error e := by
  cases x with
  | error e => simp [Except.map]
  | ok a => simp [Except.map]

theorem elim_eq_ok_iff (o : Option α) (e : ε) {a : α} : o.elim (.error e) .ok = Except.ok a ↔ o = some a := by
  cases o with
  | none => simp
  | some b => simp

theorem elim_eq_error_iff (o : Option α) (e : ε) {e' : ε} :
    o.elim (.error e) .ok = Except.error e' ↔ (¬ ∃ a, o = some a) ∧ e' = e := by
  cases o with
  | none => simp [eq_comm]
  | some b => simp

/-- Two readings that succeed with the same results, whatever their errors. -/
theorem toOption_congr {y : Except ε α} (h : ∀ a, x = .ok a ↔ y = .ok a) : x.toOption = y.toOption := by
  cases x with
  | ok a => rw [(h a).1 rfl]
  | error e =>
    cases y with
    | ok b => cases (h b).2 rfl
    | error e' => rfl

end Except

/-! ### Lists -/

section
variable {α β ε σ : Type} {read : α → Except ε β} {xs : List α} {ys : List β} {e : ε}

theorem mapM_eq_ok_iff : xs.mapM read = .ok ys ↔ List.Forall₂ (fun x y => read x = .ok y) xs ys := by
  induction xs generalizing ys with
  | nil =>
    rw [List.forall₂_nil_left_iff, List.mapM_nil]
    exact ⟨fun h => (Except.ok.inj h).symm, fun h => congrArg Except.ok h.symm⟩
  | cons x xs ih =>
    rw [List.forall₂_cons_left_iff, List.mapM_cons]
    simp only [Except.bind_eq_ok_iff, ih]
    constructor
    · rintro ⟨y, hy, ys', hys, h⟩
      exact ⟨y, ys', hy, hys, (Except.ok.inj h).symm⟩
    · rintro ⟨y, ys', hy, hys, rfl⟩
      exact ⟨y, hy, ys', hys, rfl⟩

/-- What stands behind the first element that is not read has no say. -/
theorem mapM_eq_error_iff : xs.mapM read = .error e ↔
    ∃ before x after, xs = before ++ x :: after ∧ (∀ y ∈ before, ∃ v, read y = .ok v) ∧ read x = .error e := by
  induction xs with
  | nil =>
    refine ⟨fun h => ?_, fun ⟨before, x, after, h, _⟩ => ?_⟩
    · cases h
    · exact absurd h.symm (List.append_ne_nil_of_right_ne_nil _ (List.cons_ne_nil _ _))
  | cons x xs ih =>
    rw [List.mapM_cons]
    constructor
    · intro h
      rcases Except.bind_eq_error_iff.1 h with hx | ⟨y, hy, h⟩
      · exact ⟨[], x, xs, rfl, List.forall_mem_nil _, hx⟩
      rcases Except.bind_eq_error_iff.1 h with hxs | ⟨ys, -, h⟩
      · obtain ⟨before, z, after, rfl, hbefore, hz⟩ := ih.1 hxs
        exact ⟨x :: before, z, after, rfl, List.forall_mem_cons.2 ⟨⟨y, hy⟩, hbefore⟩, hz⟩
      · cases h
    · rintro ⟨before, z, after, h, hbefore, hz⟩
      refine Except.bind_eq_error_iff.2 ?_
      cases before with
      | nil =>
        obtain ⟨rfl, -⟩ := List.cons.inj h
        exact .inl hz
      | cons y before =>
        obtain ⟨rfl, rfl⟩ := List.cons.inj h
        obtain ⟨⟨v, hv⟩, hbefore⟩ := List.forall_mem_cons.1 hbefore
        exact .inr ⟨v, hv, Except.bind_eq_error_iff.2 (.inl (ih.2 ⟨before, z, after, rfl, hbefore, hz⟩))⟩

theorem exists_mapM_eq_ok_iff : (∃ ys, xs.mapM read = .ok ys) ↔ ∀ x ∈ xs, ∃ y, read x = .ok y := by
  constructor
  · rintro ⟨ys, h⟩ x hx
    have hread := mapM_eq_ok_iff.1 h
    obtain ⟨i, hi, rfl⟩ := List.mem_iff_getElem.1 hx
    exact ⟨_, hread.get hi (hread.length_eq ▸ hi)⟩
  · intro h
    cases hxs : xs.mapM read with
    | ok ys => exact ⟨ys, rfl⟩
    | error e =>
      obtain ⟨before, x, after, rfl, -, hx⟩ := mapM_eq_error_iff.1 hxs
      obtain ⟨y, hy⟩ := h x (List.mem_append_right _ List.mem_cons_self)
      cases hx.symm.trans hy

theorem mapM_ite (P : α → Prop) [DecidablePred P] (f : α → β) (xs : List α) :
    xs.mapM (fun x => if P x then some (f x) else none) = if ∀ x ∈ xs, P x then some (xs.map f) else none := by
  induction xs with
  | nil => rfl
  | cons x xs ih =>
    rw [List.mapM_cons, ih]
    simp only [List.forall_mem_cons]
    by_cases hx : P x
    · by_cases hxs : ∀ y ∈ xs, P y
      · rw [if_pos hx, if_pos hxs, if_pos ⟨hx, hxs⟩]
        rfl
      · rw [if_pos hx, if_neg hxs, if_neg fun h => hxs h.2]
        rfl
    · rw [if_neg hx, if_neg fun h : P x ∧ ∀ y ∈ xs, P y => hx h.1]
      rfl

theorem foldlM_eq_map_mapM (change : σ → β → σ) (s : σ) :
    xs.foldlM (fun s x => (read x).map (change s)) s = (xs.mapM read).map fun ys => ys.foldl change s := by
  induction xs generalizing s with
  | nil => rfl
  | cons x xs ih =>
    rw [List.foldlM_cons, List.mapM_cons]
    cases read x with
    | error e => rfl
    | ok y =>
      refine (ih (change s y)).trans ?_
      show (xs.mapM read).map _ = ((xs.mapM read).bind fun ys => .ok (y :: ys)).map _
      cases xs.mapM read with
      | error e => rfl
      | ok ys => rfl

end

end ClusterMetrics
