/-! # Maps with sorted keys

A finite map from texts, held as its entries in ascending order of keys. Equal maps are therefore equal
as lists of entries. Texts are ordered by their characters, which is the order of their UTF-8 bytes. -/

namespace ClusterMetrics

/-- Keys strictly ascend. -/
def KeySorted {α : Type} (entries : List (String × α)) : Prop :=
  entries.Pairwise fun p q => p.1 < q.1

namespace Entries
variable {α β : Type}

def get? (key : String) : List (String × α) → Option α
  | [] => none
  | (k, v) :: rest => if k = key then some v else get? key rest

/-- The entries with the value at `key` replaced by what `f` makes of it, if it makes something. -/
def alter? (key : String) (f : Option α → Option α) : List (String × α) → Option (List (String × α))
  | [] => (f none).map fun v => [(key, v)]
  | (k, v) :: rest =>
    if key < k then (f none).map fun w => (key, w) :: (k, v) :: rest
    else if k < key then (alter? key f rest).map ((k, v) :: ·)
    else (f (some v)).map fun w => (key, w) :: rest

theorem lt_of_mem_alter? {key : String} {f : Option α → Option α} {es es' : List (String × α)}
    {k : String} (h : alter? key f es = some es') (hk : k < key) (hes : ∀ p ∈ es, k < p.1) :
    ∀ p ∈ es', k < p.1 := by
  induction es generalizing es' with
  | nil =>
    obtain ⟨v, -, rfl⟩ := Option.map_eq_some_iff.mp h
    exact List.forall_mem_singleton.mpr hk
  | cons e rest ih =>
    obtain ⟨k', v⟩ := e
    obtain ⟨hk', hrest⟩ := List.forall_mem_cons.mp hes
    rw [alter?] at h
    split at h
    · obtain ⟨w, -, rfl⟩ := Option.map_eq_some_iff.mp h
      exact List.forall_mem_cons.mpr ⟨hk, hes⟩
    split at h
    · obtain ⟨rest', hr, rfl⟩ := Option.map_eq_some_iff.mp h
      exact List.forall_mem_cons.mpr ⟨hk', ih hr hrest⟩
    · obtain ⟨w, -, rfl⟩ := Option.map_eq_some_iff.mp h
      exact List.forall_mem_cons.mpr ⟨hk, hrest⟩

theorem keySorted_alter? {key : String} {f : Option α → Option α} {es es' : List (String × α)}
    (h : alter? key f es = some es') (hs : KeySorted es) : KeySorted es' := by
  induction es generalizing es' with
  | nil =>
    obtain ⟨v, -, rfl⟩ := Option.map_eq_some_iff.mp h
    exact List.pairwise_singleton ..
  | cons e rest ih =>
    obtain ⟨k, v⟩ := e
    obtain ⟨hk, hrest⟩ := List.pairwise_cons.mp hs
    rw [alter?] at h
    split at h
    · rename_i hlt
      obtain ⟨w, -, rfl⟩ := Option.map_eq_some_iff.mp h
      refine List.pairwise_cons.mpr ⟨List.forall_mem_cons.mpr ⟨hlt, fun p hp => ?_⟩, hs⟩
      exact String.lt_trans hlt (hk p hp)
    split at h
    · rename_i hlt
      obtain ⟨rest', hr, rfl⟩ := Option.map_eq_some_iff.mp h
      exact List.pairwise_cons.mpr ⟨lt_of_mem_alter? hr hlt hk, ih hr hrest⟩
    · rename_i h1 h2
      have hkey : key = k := String.le_antisymm (String.not_lt.mp h2) (String.not_lt.mp h1)
      obtain ⟨w, -, rfl⟩ := Option.map_eq_some_iff.mp h
      exact List.pairwise_cons.mpr ⟨hkey ▸ hk, hrest⟩

theorem forall_of_alter? {P : α → Prop} {key : String} {f : Option α → Option α}
    {es es' : List (String × α)} (h : alter? key f es = some es') (hes : ∀ p ∈ es, P p.2)
    (hf : ∀ old v, (∀ x ∈ old, P x) → f old = some v → P v) : ∀ p ∈ es', P p.2 := by
  induction es generalizing es' with
  | nil =>
    obtain ⟨v, hv, rfl⟩ := Option.map_eq_some_iff.mp h
    exact List.forall_mem_singleton.mpr (hf none v (by simp) hv)
  | cons e rest ih =>
    obtain ⟨k, v⟩ := e
    obtain ⟨hv, hrest⟩ := List.forall_mem_cons.mp hes
    rw [alter?] at h
    split at h
    · obtain ⟨w, hw, rfl⟩ := Option.map_eq_some_iff.mp h
      exact List.forall_mem_cons.mpr ⟨hf none w (by simp) hw, hes⟩
    split at h
    · obtain ⟨rest', hr, rfl⟩ := Option.map_eq_some_iff.mp h
      exact List.forall_mem_cons.mpr ⟨hv, ih hr hrest⟩
    · obtain ⟨w, hw, rfl⟩ := Option.map_eq_some_iff.mp h
      exact List.forall_mem_cons.mpr ⟨hf (some v) w (by simpa using hv) hw, hrest⟩

theorem keySorted_map {f : α → β} {es : List (String × α)} (hs : KeySorted es) :
    KeySorted (es.map fun p => (p.1, f p.2)) :=
  List.Pairwise.map _ (fun _ _ h => h) hs

end Entries

structure KeyMap (α : Type) where
  entries : List (String × α)
  sorted : KeySorted entries

namespace KeyMap
variable {α β : Type}

@[ext] theorem ext {m n : KeyMap α} (h : m.entries = n.entries) : m = n := by
  cases m; cases n; subst h; rfl

instance [DecidableEq α] : DecidableEq (KeyMap α) := fun m n =>
  decidable_of_iff (m.entries = n.entries) ⟨ext, congrArg entries⟩

def empty : KeyMap α := ⟨[], List.Pairwise.nil⟩

instance : Inhabited (KeyMap α) := ⟨empty⟩

def isEmpty (m : KeyMap α) : Bool := m.entries.isEmpty

def size (m : KeyMap α) : Nat := m.entries.length

def get? (m : KeyMap α) (key : String) : Option α := Entries.get? key m.entries

/-- The map with the value at `key` replaced by what `f` makes of it, if it makes something. -/
def alter? (key : String) (f : Option α → Option α) (m : KeyMap α) : Option (KeyMap α) :=
  match h : Entries.alter? key f m.entries with
  | some es => some ⟨es, Entries.keySorted_alter? h m.sorted⟩
  | none => none

def insert (m : KeyMap α) (key : String) (value : α) : KeyMap α :=
  (m.alter? key fun _ => some value).getD m

/-- The map of a list of entries; of several with one key, the last. -/
def ofList (entries : List (String × α)) : KeyMap α :=
  entries.foldl (fun m e => m.insert e.1 e.2) empty

def mapValues (f : α → β) (m : KeyMap α) : KeyMap β :=
  ⟨m.entries.map fun p => (p.1, f p.2), Entries.keySorted_map m.sorted⟩

/-- The entries whose key satisfies `p`. -/
def filterKeys (p : String → Bool) (m : KeyMap α) : KeyMap α :=
  ⟨m.entries.filter fun e => p e.1, m.sorted.sublist List.filter_sublist⟩

/-- Every value of `other` combined with the value `m` has under its key, if every combination exists. -/
def combine? (f : Option α → α → Option α) (m other : KeyMap α) : Option (KeyMap α) :=
  other.entries.foldlM (fun m e => m.alter? e.1 fun old => f old e.2) m

/-- The entries of both maps; under a common key, the value of `other`. -/
def overwrite (m other : KeyMap α) : KeyMap α :=
  other.entries.foldl (fun m e => m.insert e.1 e.2) m

end KeyMap

end ClusterMetrics
