import ClusterMetrics.Proofs.KeyMap
import ClusterMetrics.Proofs.Merge.Parts

/-! # Slots and maps

A slot begins to absorb with the first value that comes, and then goes on as its values do
(`foldlM_slotFrom?`). A map absorbs another one key by key, each key a slot (`KeyMap.splits_combine?`), and
never gives up a key (`KeyMap.JoinsKeys`). -/

namespace ClusterMetrics

/-! ### Slots -/

namespace Merge
variable {κ α : Type}

/-- What `f` makes of a slot and a value, if a value comes. -/
def slotBy? (f : Option κ → α → Option κ) (slot : Option κ) : Option α → Option (Option κ)
  | none => some slot
  | some x => (f slot x).map some

/-- A slot that counts as `z` while it is empty. -/
def slotFrom? (z : κ) (op : κ → α → Option κ) : Option κ → Option α → Option (Option κ) :=
  slotBy? fun old x => op (old.getD z) x

theorem slot?_eq [Merge α] : slot? = slotFrom? (empty : α) merge? := by
  funext slot other
  cases other <;> rfl

variable {z : κ} {op : κ → α → Option κ} {slot : Option κ} {l : List (Option α)} {same : κ → κ → Prop}

theorem foldlM_slotFrom?_of_eq_nil (h : l.reduceOption = []) (slot : Option κ) :
    l.foldlM (slotFrom? z op) slot = some slot := by
  induction l with
  | nil => rfl
  | cons o l ih =>
    cases o with
    | none => exact ih h
    | some x => cases h

theorem foldlM_slotFrom?_of_ne_nil (h : l.reduceOption ≠ []) (slot : Option κ) :
    l.foldlM (slotFrom? z op) slot = (l.reduceOption.foldlM op (slot.getD z)).map some := by
  induction l generalizing slot with
  | nil => cases h rfl
  | cons o l ih =>
    cases o with
    | none => exact ih h slot
    | some x =>
      rw [List.foldlM_cons, List.reduceOption_cons_of_some, List.foldlM_cons, slotFrom?, slotBy?]
      cases op (slot.getD z) x with
      | none => rfl
      | some c =>
        by_cases hnil : l.reduceOption = []
        · rw [hnil]
          exact foldlM_slotFrom?_of_eq_nil hnil (some c)
        · exact ih hnil (some c)

theorem isSome_foldlM_slotFrom? :
    (l.foldlM (slotFrom? z op) slot).isSome ↔ (l.reduceOption.foldlM op (slot.getD z)).isSome := by
  by_cases hnil : l.reduceOption = []
  · rw [foldlM_slotFrom?_of_eq_nil hnil, hnil]
    exact iff_of_true rfl rfl
  · rw [foldlM_slotFrom?_of_ne_nil hnil, Option.isSome_map]

theorem orderFree_slotFrom? (h : OrderFree op same) : OrderFree (slotFrom? z op) (Option.Rel same) := by
  intro s a b l l' hperm ha hb
  have hred : l.reduceOption.Perm l'.reduceOption := hperm.filterMap id
  by_cases hnil : l.reduceOption = []
  · have hnil' : l'.reduceOption = [] := List.nil_perm.1 (hnil ▸ hred)
    rw [foldlM_slotFrom?_of_eq_nil hnil] at ha
    rw [foldlM_slotFrom?_of_eq_nil hnil'] at hb
    cases ha
    cases hb
    cases s with
    | none => exact .none
    | some x => exact .some (h.refl x)
  · have hnil' : l'.reduceOption ≠ [] := fun he => hnil (List.perm_nil.1 (he ▸ hred))
    rw [foldlM_slotFrom?_of_ne_nil hnil] at ha
    rw [foldlM_slotFrom?_of_ne_nil hnil'] at hb
    obtain ⟨x, hx, rfl⟩ := Option.map_eq_some_iff.1 ha
    obtain ⟨y, hy, rfl⟩ := Option.map_eq_some_iff.1 hb
    exact .some (h hred hx hy)

theorem isSome_slot? [Merge α] (h : ∀ a b : α, (merge? a b).isSome) (slot other : Option α) :
    (slot? slot other).isSome := by
  cases other with
  | none => rfl
  | some b => rw [slot?, Option.isSome_map, h]

theorem isSome_foldlM_slot? {β : Type} [Merge α] {f : β → Option α} {l : List β} :
    ((l.map f).foldlM slot? none).isSome ↔ ((l.filterMap f).foldlM merge? (empty : α)).isSome := by
  rw [slot?_eq, isSome_foldlM_slotFrom?, List.reduceOption, List.filterMap_map]
  rfl

theorem orderFree_slot? [Merge α] {same : α → α → Prop} (h : OrderFree merge? same) :
    OrderFree (slot? (α := α)) (Option.Rel same) := by
  rw [slot?_eq]
  exact orderFree_slotFrom? h

theorem eq_of_rel_eq {a b : Option κ} (h : Option.Rel Eq a b) : a = b := by
  cases h with
  | some h => rw [h]
  | none => rfl

theorem isSome_eq_of_rel {a b : Option κ} (h : Option.Rel same a b) : a.isSome = b.isSome := by
  cases h with
  | some h => rfl
  | none => rfl

theorem map_eq_of_rel {f : κ → α} {a b : Option κ} (h : Option.Rel (fun x y => f x = f y) a b) :
    a.map f = b.map f := by
  cases h with
  | some h => exact congrArg some h
  | none => rfl

end Merge

/-! ### Entries -/

namespace Entries
open Merge (slotBy?)
variable {α β : Type} {es es' rs : List (String × α)} {other : List (String × β)} {k key : String} {v : β}
  {f : Option α → β → Option α}

theorem isSome_alter? {f : Option α → Option α} (hs : KeySorted es) :
    (alter? key f es).isSome = (f (get? key es)).isSome := by
  induction es with
  | nil => rw [alter?, Option.isSome_map, get?]
  | cons p rest ih =>
    obtain ⟨k', w⟩ := p
    obtain ⟨hp, hrest⟩ := List.pairwise_cons.1 hs
    rw [alter?]
    split
    next hlt =>
      have hnone : get? key ((k', w) :: rest) = none := by
        refine get?_of_forall_lt (List.forall_mem_cons.2 ⟨hlt, fun p hmem => ?_⟩)
        exact String.lt_trans hlt (hp p hmem)
      rw [Option.isSome_map, hnone]
    next hnlt =>
    split
    next hlt =>
      have hne : k' ≠ key := fun he => String.lt_irrefl _ (he ▸ hlt)
      rw [Option.isSome_map, get?_cons_of_ne hne, ih hrest]
    next hnlt' =>
      have hkey : key = k' := String.le_antisymm (String.not_lt.1 hnlt') (String.not_lt.1 hnlt)
      rw [Option.isSome_map, hkey, get?_cons_self]

/-- Every entry of `other` combined with what is there under its key. -/
def combine? (f : Option α → β → Option α) (es : List (String × α)) (other : List (String × β)) :
    Option (List (String × α)) :=
  other.foldlM (fun es e => alter? e.1 (fun old => f old e.2) es) es

theorem combine?_cons_eq_some (h : combine? f es ((key, v) :: other) = some rs) :
    ∃ es', alter? key (fun old => f old v) es = some es' ∧ combine? f es' other = some rs := by
  rw [combine?, List.foldlM_cons] at h
  obtain ⟨es', he, hr⟩ := Option.bind_eq_some_iff.1 h
  exact ⟨es', he, hr⟩

theorem get?_combine? (h : combine? f es other = some rs) (hs : KeySorted es) (ho : KeySorted other) (k : String) :
    slotBy? f (get? k es) (get? k other) = some (get? k rs) := by
  induction other generalizing es with
  | nil =>
    cases h
    rfl
  | cons p other ih =>
    obtain ⟨key, v⟩ := p
    obtain ⟨hkey, ho⟩ := List.pairwise_cons.1 ho
    obtain ⟨es', he, hr⟩ := combine?_cons_eq_some h
    have ih := ih hr (keySorted_alter? he hs) ho
    rw [get?_alter? he hs k] at ih
    by_cases hk : k = key
    · -- No other entry has this key, so what `f` makes of this one stays.
      subst hk
      have hsome : (f (get? k es) v).isSome := by
        rw [← isSome_alter? (f := fun old => f old v) hs, he, Option.isSome_some]
      obtain ⟨w, hw⟩ := Option.isSome_iff_exists.1 hsome
      rw [if_pos rfl, get?_of_forall_lt hkey] at ih
      rw [get?_cons_self, ← ih, slotBy?, slotBy?, hw, Option.map_some]
    · rw [if_neg hk] at ih
      rw [get?_cons_of_ne (Ne.symm hk), ih]

theorem isSome_combine? (hs : KeySorted es) (ho : KeySorted other)
    (h : ∀ k, (slotBy? f (get? k es) (get? k other)).isSome) : (combine? f es other).isSome := by
  induction other generalizing es with
  | nil => rfl
  | cons p other ih =>
    obtain ⟨key, v⟩ := p
    obtain ⟨hkey, ho⟩ := List.pairwise_cons.1 ho
    have hsome : (alter? key (fun old => f old v) es).isSome := by
      have hslot := h key
      rw [get?_cons_self, slotBy?, Option.isSome_map] at hslot
      rw [isSome_alter? hs, hslot]
    obtain ⟨es', he⟩ := Option.isSome_iff_exists.1 hsome
    rw [combine?, List.foldlM_cons, he]
    refine ih (keySorted_alter? he hs) ho fun k => ?_
    rw [get?_alter? he hs k]
    by_cases hk : k = key
    · rw [hk, get?_of_forall_lt hkey]
      rfl
    · have hslot := h k
      rw [get?_cons_of_ne (Ne.symm hk)] at hslot
      rw [if_neg hk, hslot]

end Entries

/-! ### Maps -/

namespace KeyMap
open Merge (slotBy? slotFrom?)
variable {α : Type} {m n r : KeyMap α} {k key : String} {f : Option α → α → Option α}

theorem map_entries_alter? (m : KeyMap α) (key : String) (f : Option α → Option α) :
    (m.alter? key f).map entries = Entries.alter? key f m.entries := by
  rw [alter?]
  split
  next hes => exact hes.symm
  next hnone => exact hnone.symm

theorem map_entries_combine? (f : Option α → α → Option α) (m n : KeyMap α) :
    (m.combine? f n).map entries = Entries.combine? f m.entries n.entries := by
  rw [combine?, Entries.combine?]
  induction n.entries generalizing m with
  | nil => rfl
  | cons e other ih =>
    rw [List.foldlM_cons, List.foldlM_cons, ← map_entries_alter? m]
    cases m.alter? e.1 fun old => f old e.2 with
    | none => rfl
    | some m' => exact ih m'

theorem get?_combine? (h : m.combine? f n = some r) (k : String) :
    slotBy? f (m.get? k) (n.get? k) = some (r.get? k) := by
  have hentries := map_entries_combine? f m n
  rw [h] at hentries
  exact Entries.get?_combine? hentries.symm m.sorted n.sorted k

theorem isSome_combine? (h : ∀ k, (slotBy? f (m.get? k) (n.get? k)).isSome) : (m.combine? f n).isSome := by
  rw [← Option.isSome_map, map_entries_combine?]
  exact Entries.isSome_combine? m.sorted n.sorted h

/-- Maps are combined key by key. -/
theorem splits_combine? (f : Option α → α → Option α) :
    Splits (combine? f) {p | ∃ k, p = .field (fun m => m.get? k) (slotBy? f)} where
  tracks := by
    rintro p ⟨k, rfl⟩ m n r h
    exact get?_combine? h k
  isSome := by
    intro m n h
    exact isSome_combine? fun k => h _ ⟨k, rfl⟩

section
variable {z : α} {op : α → α → Option α} {same : α → α → Prop}

theorem isSome_foldlM_combine? {β : Type} {g : β → KeyMap α} {l : List β} :
    ((l.map g).foldlM (combine? fun old v => op (old.getD z) v) empty).isSome ↔
      ∀ k, ((l.filterMap fun x => (g x).get? k).foldlM op z).isSome := by
  have hkey : ∀ k, (((l.map g).map fun m => m.get? k).foldlM (slotFrom? z op) none).isSome ↔
      ((l.filterMap fun x => (g x).get? k).foldlM op z).isSome := by
    intro k
    rw [Merge.isSome_foldlM_slotFrom?, List.map_map, List.reduceOption, List.filterMap_map]
    rfl
  rw [(splits_combine? _).isSome_foldlM]
  constructor
  · intro h k
    exact (hkey k).1 (h _ ⟨k, rfl⟩)
  · rintro h p ⟨k, rfl⟩
    exact (hkey k).2 (h k)

end

/-! ### Keys -/

def keys (m : KeyMap α) : List String := m.entries.map Prod.fst

theorem mem_keys_iff : k ∈ m.keys ↔ (m.get? k).isSome := by
  rw [keys, List.mem_map, Option.isSome_iff_exists]
  constructor
  · rintro ⟨⟨k, v⟩, hmem, rfl⟩
    exact ⟨v, mem_entries_iff.1 hmem⟩
  · rintro ⟨v, hv⟩
    exact ⟨(k, v), mem_entries_iff.2 hv, rfl⟩

theorem keys_eq_of_mem_iff (h : ∀ k, k ∈ m.keys ↔ k ∈ n.keys) : m.keys = n.keys := by
  have hperm := (List.perm_ext_iff_of_nodup m.nodup_keys n.nodup_keys).2 h
  have hsorted : ∀ m : KeyMap α, m.keys.Pairwise (· < ·) := fun m => List.pairwise_map.2 m.sorted
  refine hperm.eq_of_pairwise ?_ (hsorted m) (hsorted n)
  intro k k' _ _ hlt hgt
  exact absurd (String.lt_trans hlt hgt) (String.lt_irrefl k)

/-- The keys afterwards are those of both maps. -/
def JoinsKeys (op : KeyMap α → KeyMap α → Option (KeyMap α)) : Prop :=
  ∀ ⦃m n r⦄, op m n = some r → ∀ k, k ∈ r.keys ↔ k ∈ m.keys ∨ k ∈ n.keys

theorem JoinsKeys.orderFree {op : KeyMap α → KeyMap α → Option (KeyMap α)} (h : JoinsKeys op) :
    OrderFree op fun m n => m.keys = n.keys := by
  intro s a b l l' hperm ha hb
  have htracks : Tracks op (.total (fun m => {k | k ∈ m.keys}) (· ∪ ·)) := by
    intro m n r hr
    exact congrArg some (Set.ext fun k => (h hr k).symm)
  have hfree : OrderFree (fun s t : Set String => some (s ∪ t)) Eq := .of_comm Set.union_right_comm
  have hset := htracks.same hfree hperm ha hb
  exact keys_eq_of_mem_iff fun k => Set.ext_iff.1 hset k

theorem joinsKeys_combine? (f : Option α → α → Option α) : JoinsKeys (combine? f) := by
  intro m n r h k
  have hget := get?_combine? h k
  rw [mem_keys_iff, mem_keys_iff, mem_keys_iff]
  cases hn : n.get? k with
  | none =>
    rw [hn] at hget
    have hkept : m.get? k = r.get? k := Option.some.inj hget
    simp [hkept]
  | some v =>
    rw [hn] at hget
    obtain ⟨w, -, hw⟩ := Option.map_eq_some_iff.1 hget
    simp [← hw]

theorem joinsKeys_overwrite : JoinsKeys fun m n : KeyMap α => some (m.overwrite n) := by
  intro m n r h k
  cases h
  rw [mem_keys_iff, mem_keys_iff, mem_keys_iff, get?_overwrite]
  cases n.get? k <;> simp

theorem JoinsKeys.flip {op : KeyMap α → KeyMap α → Option (KeyMap α)} (h : JoinsKeys op) :
    JoinsKeys fun m n => op n m := by
  intro m n r hr k
  rw [h hr k, or_comm]

end KeyMap

end ClusterMetrics
