/-! # Interleavings

Ways to put the elements of several lists into one order that keeps the order of each list. -/

namespace ClusterMetrics
variable {α β : Type}

inductive Interleaves : List (List α) → List α → Prop where
  | nil {ls : List (List α)} (h : ∀ l ∈ ls, l = []) : Interleaves ls []
  | cons {before after : List (List α)} {l es : List α} {e : α} (h : Interleaves (before ++ l :: after) es) :
      Interleaves (before ++ (e :: l) :: after) (e :: es)

namespace Interleaves
variable {ls before after : List (List α)} {l es : List α} {e : α}

theorem perm_flatten (h : Interleaves ls es) : es.Perm ls.flatten := by
  induction h with
  | nil h => rw [List.flatten_eq_nil_iff.2 h]
  | @cons before after l es e _ ih =>
    rw [List.flatten_append, List.flatten_cons] at ih ⊢
    exact (ih.cons e).trans List.perm_middle.symm

/-- Whatever is kept of the elements, and turned into whatever, is interleaved alike. -/
theorem filterMap (h : Interleaves ls es) (f : α → Option β) :
    Interleaves (ls.map (List.filterMap f)) (es.filterMap f) := by
  induction h with
  | nil h =>
    refine .nil fun l' hl' => ?_
    obtain ⟨l, hl, rfl⟩ := List.mem_map.1 hl'
    rw [h l hl, List.filterMap_nil]
  | @cons before after l es e _ ih =>
    rw [List.map_append, List.map_cons] at ih ⊢
    cases he : f e with
    | none => rwa [List.filterMap_cons_none he, List.filterMap_cons_none he]
    | some b =>
      rw [List.filterMap_cons_some he, List.filterMap_cons_some he]
      exact .cons ih

theorem sublist (h : Interleaves ls es) (hl : l ∈ ls) : l.Sublist es := by
  induction h generalizing l with
  | nil h => obtain rfl := h l hl; exact .slnil
  | @cons before after l' es e _ ih =>
    rcases List.mem_append.1 hl with hl | hl
    · exact (ih (List.mem_append_left _ hl)).cons e
    · rcases List.mem_cons.1 hl with rfl | hl
      · exact (ih (List.mem_append_right _ List.mem_cons_self)).cons_cons e
      · exact (ih (List.mem_append_right _ (List.mem_cons_of_mem _ hl))).cons e

/-- There is one way only if all lists but one are empty. -/
theorem eq_of_empty (h : Interleaves (before ++ l :: after) es) (hb : ∀ l' ∈ before, l' = [])
    (ha : ∀ l' ∈ after, l' = []) : es = l := by
  have hsub := h.sublist (List.mem_append_right before List.mem_cons_self)
  have hlen := h.perm_flatten.length_eq
  rw [List.flatten_append, List.flatten_cons, List.flatten_eq_nil_iff.2 hb, List.flatten_eq_nil_iff.2 ha,
    List.nil_append, List.append_nil] at hlen
  exact (hsub.eq_of_length hlen.symm).symm

/-- What comes last is last in its list. -/
theorem exists_getLast? (h : Interleaves ls es) (he : es.getLast? = some e) :
    ∃ l ∈ ls, l.getLast? = some e := by
  induction h with
  | nil => cases he
  | @cons before after l es e' h ih =>
    rw [List.getLast?_cons] at he
    cases hes : es.getLast? with
    | none =>
      have hl : l = [] := by
        have hsub := h.sublist (List.mem_append_right before List.mem_cons_self)
        rw [List.getLast?_eq_none_iff.1 hes] at hsub
        exact List.sublist_nil.1 hsub
      rw [hes, Option.getD_none] at he
      exact ⟨e' :: l, List.mem_append_right _ List.mem_cons_self, by rw [hl, ← he]; rfl⟩
    | some b =>
      rw [hes, Option.getD_some] at he
      obtain ⟨l', hl', hlast⟩ := ih (by rw [hes, he])
      rcases List.mem_append.1 hl' with hl' | hl'
      · exact ⟨l', List.mem_append_left _ hl', hlast⟩
      · rcases List.mem_cons.1 hl' with rfl | hl'
        · refine ⟨e' :: l', List.mem_append_right _ List.mem_cons_self, ?_⟩
          rw [List.getLast?_cons, hlast, Option.getD_some]
        · exact ⟨l', List.mem_append_right _ (List.mem_cons_of_mem _ hl'), hlast⟩

/-- An empty list more makes no difference. -/
theorem insert_nil (h : Interleaves (before ++ after) es) : Interleaves (before ++ [] :: after) es := by
  generalize hls : before ++ after = ls at h
  induction h generalizing before after with
  | nil h =>
    subst hls
    refine .nil fun l hl => ?_
    rcases List.mem_append.1 hl with hl | hl
    · exact h l (List.mem_append_left _ hl)
    · rcases List.mem_cons.1 hl with rfl | hl
      · rfl
      · exact h l (List.mem_append_right _ hl)
  | @cons before' after' l es e _ ih =>
    rcases List.append_eq_append_iff.1 hls with ⟨mid, rfl, rfl⟩ | ⟨mid, rfl, hmid⟩
    · -- The empty list comes before the list that is first.
      have h := @ih before (mid ++ l :: after') (List.append_assoc ..).symm
      rw [← List.cons_append, ← List.append_assoc] at h ⊢
      exact .cons h
    · rcases List.cons_eq_append_iff.1 hmid with ⟨rfl, rfl⟩ | ⟨mid', rfl, rfl⟩
      · have h := @ih (before' ++ []) (l :: after') (by rw [List.append_nil])
        rw [List.append_cons] at h ⊢
        exact .cons h
      · have h := @ih (before' ++ l :: mid') after (List.append_assoc ..)
        rw [List.append_assoc, List.cons_append] at h ⊢
        exact .cons h

/-- One list may come first as a whole. -/
theorem first (h : Interleaves (before ++ after) es) (l : List α) :
    Interleaves (before ++ l :: after) (l ++ es) := by
  induction l with
  | nil => exact h.insert_nil
  | cons e l ih => exact .cons ih

/-- The lists may come one after the other. -/
theorem flatten (ls : List (List α)) : Interleaves ls ls.flatten := by
  induction ls with
  | nil => exact .nil fun l hl => absurd hl List.not_mem_nil
  | cons l ls ih =>
    rw [← List.nil_append ls] at ih
    exact ih.first l

end Interleaves

end ClusterMetrics
