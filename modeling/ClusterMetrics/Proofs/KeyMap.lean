import ClusterMetrics.KeyMap

/-! # Lookups in maps with sorted keys

A map is known by what its keys lead to (`KeyMap.ext_get?`), and of every update it is said what they lead to
after it. -/

namespace ClusterMetrics

namespace Entries
variable {α : Type} {es es' : List (String × α)} {k key : String} {v : α}

theorem get?_cons_self (k : String) (v : α) (es : List (String × α)) : get? k ((k, v) :: es) = some v := if_pos rfl

theorem get?_cons_of_ne (h : k ≠ key) (v : α) (es : List (String × α)) :
    get? key ((k, v) :: es) = get? key es := if_neg h

theorem get?_cons (key : String) (v : α) (es : List (String × α)) (k : String) :
    get? k ((key, v) :: es) = if k = key then some v else get? k es := by
  by_cases hk : k = key
  · rw [hk, get?_cons_self, if_pos rfl]
  · rw [get?_cons_of_ne (Ne.symm hk), if_neg hk]

theorem get?_eq_none (h : ∀ p ∈ es, p.1 ≠ key) : get? key es = none := by
  induction es with
  | nil => rfl
  | cons p es ih =>
    obtain ⟨hp, hes⟩ := List.forall_mem_cons.1 h
    rw [get?_cons_of_ne hp, ih hes]

theorem mem_of_get? (h : get? key es = some v) : (key, v) ∈ es := by
  induction es with
  | nil => cases h
  | cons p es ih =>
    obtain ⟨k, w⟩ := p
    by_cases hk : k = key
    · subst hk
      rw [get?_cons_self] at h
      cases h
      exact List.mem_cons_self
    · rw [get?_cons_of_ne hk] at h
      exact List.mem_cons_of_mem _ (ih h)

theorem ne_of_lt {p : String × α} (h : key < p.1) : p.1 ≠ key := fun he => String.lt_irrefl _ (he ▸ h)

theorem get?_of_forall_lt (h : ∀ p ∈ es, key < p.1) : get? key es = none :=
  get?_eq_none fun p hp => ne_of_lt (h p hp)

theorem get?_of_mem (hs : KeySorted es) (h : (key, v) ∈ es) : get? key es = some v := by
  induction es with
  | nil => cases h
  | cons p es ih =>
    obtain ⟨hp, hes⟩ := List.pairwise_cons.1 hs
    rcases List.mem_cons.1 h with rfl | h
    · exact get?_cons_self ..
    · have hne : p.1 ≠ key := fun he => String.lt_irrefl _ (he ▸ hp _ h)
      rw [get?_cons_of_ne hne, ih hes h]

theorem mem_iff_get? (hs : KeySorted es) : (key, v) ∈ es ↔ get? key es = some v :=
  ⟨get?_of_mem hs, mem_of_get?⟩

theorem nodup_of_keySorted (hs : KeySorted es) : (es.map Prod.fst).Nodup := by
  refine List.pairwise_map.2 (List.Pairwise.imp ?_ hs)
  intro p q hlt he
  exact String.lt_irrefl _ (he ▸ hlt)

/-- Sorted entries are known by what they hold. -/
theorem ext_mem (hs : KeySorted es) (hs' : KeySorted es') (h : ∀ p, p ∈ es ↔ p ∈ es') : es = es' := by
  have hnodup : ∀ {l : List (String × α)}, KeySorted l → l.Nodup := by
    intro l hl
    refine List.Pairwise.imp ?_ hl
    rintro p q hlt rfl
    exact String.lt_irrefl _ hlt
  have hperm := (List.perm_ext_iff_of_nodup (hnodup hs) (hnodup hs')).2 h
  exact hperm.eq_of_pairwise (fun p q _ _ hpq hqp => absurd (String.lt_trans hpq hqp) (String.lt_irrefl _)) hs hs'

theorem get?_alter? {f : Option α → Option α} (h : alter? key f es = some es') (hs : KeySorted es) (k : String) :
    get? k es' = if k = key then f (get? key es) else get? k es := by
  induction es generalizing es' with
  | nil =>
    obtain ⟨v, hv, rfl⟩ := Option.map_eq_some_iff.1 h
    rw [get?_cons, ← hv]
    rfl
  | cons p rest ih =>
    obtain ⟨k', w⟩ := p
    obtain ⟨hp, hrest⟩ := List.pairwise_cons.1 hs
    rw [alter?] at h
    split at h
    next hlt =>
      obtain ⟨u, hu, rfl⟩ := Option.map_eq_some_iff.1 h
      have hnone : get? key ((k', w) :: rest) = none := by
        refine get?_eq_none (List.forall_mem_cons.2 ⟨ne_of_lt hlt, fun p hmem => ?_⟩)
        exact ne_of_lt (String.lt_trans hlt (hp p hmem))
      rw [get?_cons, hnone, hu]
    next =>
    split at h
    next hlt =>
      obtain ⟨rest', hr, rfl⟩ := Option.map_eq_some_iff.1 h
      have hne : k' ≠ key := fun he => String.lt_irrefl _ (he ▸ hlt)
      rw [get?_cons_of_ne hne]
      by_cases hk : k' = k
      · subst hk
        rw [get?_cons_self, get?_cons_self, if_neg hne]
      · rw [get?_cons_of_ne hk, get?_cons_of_ne hk, ih hr hrest]
    next h1 h2 =>
      have hkey : key = k' := String.le_antisymm (String.not_lt.1 h2) (String.not_lt.1 h1)
      subst hkey
      obtain ⟨u, hu, rfl⟩ := Option.map_eq_some_iff.1 h
      rw [get?_cons_self, hu, get?_cons, get?_cons]
      split <;> rfl

theorem alter?_some (key : String) (v : α) (es : List (String × α)) :
    ∃ es', alter? key (fun _ => some v) es = some es' := by
  induction es with
  | nil => exact ⟨_, rfl⟩
  | cons p es ih =>
    obtain ⟨es', hes⟩ := ih
    rw [alter?, hes]
    split
    · exact ⟨_, rfl⟩
    split <;> exact ⟨_, rfl⟩

end Entries

namespace KeyMap
variable {α : Type} {m n : KeyMap α} {k key : String} {v : α}

@[simp] theorem get?_empty (k : String) : (empty : KeyMap α).get? k = none := rfl

theorem mem_entries_iff : (k, v) ∈ m.entries ↔ m.get? k = some v := Entries.mem_iff_get? m.sorted

theorem nodup_keys (m : KeyMap α) : (m.entries.map Prod.fst).Nodup := Entries.nodup_of_keySorted m.sorted

theorem ext_get? (h : ∀ k, m.get? k = n.get? k) : m = n := by
  refine ext (Entries.ext_mem m.sorted n.sorted fun p => ?_)
  rw [show p = (p.1, p.2) from rfl, mem_entries_iff, mem_entries_iff, h]

theorem entries_alter? {f : Option α → Option α} (h : m.alter? key f = some n) :
    Entries.alter? key f m.entries = some n.entries := by
  rw [alter?] at h
  split at h
  next hes => cases h; exact hes
  next => cases h

theorem get?_alter? {f : Option α → Option α} (h : m.alter? key f = some n) (k : String) :
    n.get? k = if k = key then f (m.get? key) else m.get? k :=
  Entries.get?_alter? (entries_alter? h) m.sorted k

theorem alter?_some (m : KeyMap α) (key : String) (v : α) : m.alter? key (fun _ => some v) = some (m.insert key v) := by
  obtain ⟨es, hes⟩ := Entries.alter?_some key v m.entries
  have h : m.alter? key (fun _ => some v) = some ⟨es, Entries.keySorted_alter? hes m.sorted⟩ := by
    rw [alter?]
    split
    next hes' => cases hes.symm.trans hes'; rfl
    next hnone => cases hes.symm.trans hnone
  rw [insert, h, Option.getD_some]

theorem get?_insert (m : KeyMap α) (key : String) (v : α) (k : String) :
    (m.insert key v).get? k = if k = key then some v else m.get? k :=
  get?_alter? (alter?_some m key v) k

theorem get?_foldl_insert {es : List (String × α)} (hs : KeySorted es) (m : KeyMap α) (k : String) :
    (es.foldl (fun m e => m.insert e.1 e.2) m).get? k = (Entries.get? k es).or (m.get? k) := by
  induction es generalizing m with
  | nil => rfl
  | cons e es ih =>
    obtain ⟨key, v⟩ := e
    obtain ⟨hkey, hes⟩ := List.pairwise_cons.1 hs
    rw [List.foldl_cons, ih hes, get?_insert]
    by_cases hk : k = key
    · rw [if_pos hk, hk, Entries.get?_of_forall_lt hkey, Entries.get?_cons_self]
      rfl
    · rw [if_neg hk, Entries.get?_cons_of_ne (Ne.symm hk)]

theorem get?_overwrite (m n : KeyMap α) (k : String) : (m.overwrite n).get? k = (n.get? k).or (m.get? k) :=
  get?_foldl_insert n.sorted m k

@[simp] theorem empty_overwrite (m : KeyMap α) : KeyMap.empty.overwrite m = m := by
  refine ext_get? fun k => ?_
  rw [get?_overwrite, get?_empty, Option.or_none]

@[simp] theorem overwrite_empty (m : KeyMap α) : m.overwrite .empty = m := rfl

theorem eq_empty_of_isEmpty (h : m.isEmpty = true) : m = .empty := ext (List.isEmpty_iff.1 h)

theorem ofList_entries (m : KeyMap α) : ofList m.entries = m := empty_overwrite m

end KeyMap

end ClusterMetrics
