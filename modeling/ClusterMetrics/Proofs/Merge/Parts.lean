import Mathlib
import ClusterMetrics.Merge

/-! # Parts of what absorbs

A state absorbs values one after the other. If it does so part by part, each part taking in its share of every
value and nothing else, then so it goes with a whole list of values: what becomes of a part is known from its
shares (`Tracks.run?_eq`), and all values can be absorbed exactly if every part can absorb its shares
(`Splits.isSome_foldlM`). A part that comes to the same in every order does so within the whole (`Tracks.same`).

A state that is put together from checked steps, one for each part, absorbs part by part (`Splits.of_inTurn`). -/

namespace ClusterMetrics

/-! ### Order -/

section
variable {σ α : Type} {absorb? : σ → α → Option σ} {same : σ → σ → Prop}

/-- In whatever order some values are absorbed, what they leave is the same as far as `same` tells. -/
def OrderFree (absorb? : σ → α → Option σ) (same : σ → σ → Prop) : Prop :=
  ∀ ⦃s a b : σ⦄ ⦃l l' : List α⦄, l.Perm l' → l.foldlM absorb? s = some a → l'.foldlM absorb? s = some b → same a b

theorem foldlM_some (absorb : σ → α → σ) (s : σ) (l : List α) :
    l.foldlM (fun s x => some (absorb s x)) s = some (l.foldl absorb s) := List.foldlM_pure

theorem isSome_foldlM_some (absorb : σ → α → σ) (s : σ) (l : List α) :
    (l.foldlM (fun s x => some (absorb s x)) s).isSome := by
  rw [foldlM_some, Option.isSome_some]

theorem measure_foldlM {M : Type} [AddMonoid M] {measure : σ → M} {share : α → M} {s t : σ} {l : List α}
    (hstep : ∀ ⦃s x t⦄, absorb? s x = some t → measure t = measure s + share x) (h : l.foldlM absorb? s = some t) :
    measure t = measure s + (l.map share).sum := by
  induction l generalizing s with
  | nil =>
    cases h
    rw [List.map_nil, List.sum_nil, add_zero]
  | cons x l ih =>
    rw [List.foldlM_cons] at h
    obtain ⟨u, hu, ht⟩ := Option.bind_eq_some_iff.1 h
    rw [ih ht, hstep hu, List.map_cons, List.sum_cons, add_assoc]

namespace OrderFree

theorem refl (h : OrderFree absorb? same) (s : σ) : same s s := h (List.Perm.refl []) rfl rfl

/-- What never fails is free of the order if any two neighbours may change places. -/
theorem of_comm {absorb : σ → α → σ} (h : ∀ s x y, absorb (absorb s x) y = absorb (absorb s y) x) :
    OrderFree (fun s x => some (absorb s x)) Eq := by
  intro s a b l l' hperm ha hb
  have : RightCommutative absorb := ⟨h⟩
  have heq : l.foldl absorb s = l'.foldl absorb s := hperm.foldl_eq s
  rw [foldlM_some, Option.some.injEq] at ha hb
  rw [← ha, ← hb, heq]

/-- Absorbing is free of the order if it adds up a quantity that tells states apart. -/
theorem of_sum {M : Type} [AddCommMonoid M] {measure : σ → M} {share : α → M}
    (hstep : ∀ ⦃s x t⦄, absorb? s x = some t → measure t = measure s + share x)
    (hinj : ∀ a b, measure a = measure b → a = b) : OrderFree absorb? Eq := by
  intro s a b l l' hperm ha hb
  have hsum : (l.map share).sum = (l'.map share).sum := (hperm.map share).sum_eq
  refine hinj a b ?_
  rw [measure_foldlM hstep ha, measure_foldlM hstep hb, hsum]

end OrderFree
end

/-! ### Parts -/

/-- Something that a state keeps, and how it takes in its share of a value. -/
structure Part (σ α : Type) where
  {Kept Share : Type}
  kept : σ → Kept
  share : α → Share
  absorb? : Kept → Share → Option Kept

namespace Part
variable {σ α κ : Type}

/-- A field that absorbs the same field of another record. -/
abbrev field (f : σ → κ) (op : κ → κ → Option κ) : Part σ σ := ⟨f, f, op⟩

/-- A field that absorbs the same field of any other record. -/
abbrev total (f : σ → κ) (op : κ → κ → κ) : Part σ σ := field f fun a b => some (op a b)

/-- What the part comes to if the state is `s` before some values come. -/
def run? (p : Part σ α) (s : σ) (l : List α) : Option p.Kept := (l.map p.share).foldlM p.absorb? (p.kept s)

variable {p : Part σ α} {s : σ} {x : α} {l : List α}

theorem run?_cons : p.run? s (x :: l) =
    (p.absorb? (p.kept s) (p.share x)).bind fun k => (l.map p.share).foldlM p.absorb? k := by
  rw [run?, List.map_cons, List.foldlM_cons]
  rfl

theorem run?_cons_of_eq {t : σ} (h : p.absorb? (p.kept s) (p.share x) = some (p.kept t)) :
    p.run? s (x :: l) = p.run? t l := by
  rw [run?_cons, h, Option.bind_some, run?]

theorem run?_field (f : σ → κ) (op : κ → κ → Option κ) (s : σ) (l : List σ) :
    (field f op).run? s l = (l.map f).foldlM op (f s) := rfl

end Part

/-! ### A part within the whole -/

section
variable {σ α : Type} {absorb? : σ → α → Option σ} {p : Part σ α} {parts : Set (Part σ α)} {s t a b : σ}
  {l l' : List α}

/-- Of every value that is absorbed, the part takes in its share. -/
def Tracks (absorb? : σ → α → Option σ) (p : Part σ α) : Prop :=
  ∀ ⦃s x t⦄, absorb? s x = some t → p.absorb? (p.kept s) (p.share x) = some (p.kept t)

theorem Tracks.run?_eq (h : Tracks absorb? p) (hl : l.foldlM absorb? s = some t) : p.run? s l = some (p.kept t) := by
  induction l generalizing s with
  | nil =>
    cases hl
    rfl
  | cons x l ih =>
    rw [List.foldlM_cons] at hl
    obtain ⟨u, hu, ht⟩ := Option.bind_eq_some_iff.1 hl
    rw [Part.run?_cons_of_eq (h hu), ih ht]

theorem Tracks.same {same : p.Kept → p.Kept → Prop} (h : Tracks absorb? p) (hfree : OrderFree p.absorb? same)
    (hperm : l.Perm l') (ha : l.foldlM absorb? s = some a) (hb : l'.foldlM absorb? s = some b) :
    same (p.kept a) (p.kept b) :=
  hfree (hperm.map p.share) (h.run?_eq ha) (h.run?_eq hb)

/-- The state absorbs part by part, and nothing but a part can fail to. -/
structure Splits (absorb? : σ → α → Option σ) (parts : Set (Part σ α)) : Prop where
  tracks : ∀ p ∈ parts, Tracks absorb? p
  isSome : ∀ ⦃s x⦄, (∀ p ∈ parts, (p.absorb? (p.kept s) (p.share x)).isSome) → (absorb? s x).isSome

theorem Splits.isSome_foldlM (h : Splits absorb? parts) :
    (l.foldlM absorb? s).isSome ↔ ∀ p ∈ parts, (p.run? s l).isSome := by
  constructor
  · intro hl p hp
    obtain ⟨t, ht⟩ := Option.isSome_iff_exists.1 hl
    rw [(h.tracks p hp).run?_eq ht, Option.isSome_some]
  intro hl
  induction l generalizing s with
  | nil => rfl
  | cons x l ih =>
    -- Every part takes in its share of the first value, so the first value is absorbed.
    have hfirst : ∀ p ∈ parts, (p.absorb? (p.kept s) (p.share x)).isSome := by
      intro p hp
      have hrun := hl p hp
      rw [Part.run?_cons] at hrun
      exact Option.isSome_of_isSome_bind hrun
    obtain ⟨t, ht⟩ := Option.isSome_iff_exists.1 (h.isSome hfirst)
    rw [List.foldlM_cons, ht]
    refine ih fun p hp => ?_
    rw [← Part.run?_cons_of_eq (h.tracks p hp ht)]
    exact hl p hp

end

/-! ### Steps in sequence -/

section
variable {α β : Type} {x : Option α} {f : α → Option β} {y : β}

theorem bind_eq_some : (x >>= f) = some y ↔ ∃ a, x = some a ∧ f a = some y := Option.bind_eq_some_iff

theorem isSome_bind (hx : x.isSome) (hf : ∀ a, (f a).isSome) : (x >>= f).isSome := by
  obtain ⟨a, rfl⟩ := Option.isSome_iff_exists.1 hx
  exact hf a

end

/-! ### Parts in turn -/

section
variable {σ α : Type} {s t : σ} {x : α} {Q : σ → Prop} {parts : Set (Part σ α)} {o : Option σ}

/-- The outcome `o` of absorbing `x` is found part by part: each takes in its share in turn, and if all of them can,
the state has what they came to. `Q` is what else is known of that state. -/
inductive InTurn (s : σ) (x : α) : Set (Part σ α) → (σ → Prop) → Option σ → Prop where
  | done {Q : σ → Prop} {t : σ} (h : Q t) : InTurn s x ∅ Q (some t)
  | step {p : Part σ α} {parts : Set (Part σ α)} {Q : σ → Prop} {next : p.Kept → Option σ}
      (h : ∀ k, InTurn s x parts (fun t => Q t ∧ p.kept t = k) (next k)) :
      InTurn s x (insert p parts) Q (p.absorb? (p.kept s) (p.share x) >>= next)
  /-- A part that cannot fail needs no step. -/
  | total {p : Part σ α} {parts : Set (Part σ α)} {Q : σ → Prop} {k : p.Kept} {o : Option σ}
      (hk : p.absorb? (p.kept s) (p.share x) = some k) (h : InTurn s x parts (fun t => Q t ∧ p.kept t = k) o) :
      InTurn s x (insert p parts) Q o

namespace InTurn

theorem of_eq_some (h : InTurn s x parts Q o) (ho : o = some t) :
    Q t ∧ ∀ p ∈ parts, p.absorb? (p.kept s) (p.share x) = some (p.kept t) := by
  induction h with
  | done h =>
    obtain rfl := Option.some.inj ho
    exact ⟨h, nofun⟩
  | step _ ih =>
    -- What the part came to is held in `Q` until the state is there, so now it is known of the state.
    obtain ⟨k, hk, ho⟩ := bind_eq_some.1 ho
    obtain ⟨⟨hQ, rfl⟩, hparts⟩ := ih k ho
    exact ⟨hQ, Set.forall_mem_insert.2 ⟨hk, hparts⟩⟩
  | total hk _ ih =>
    obtain ⟨⟨hQ, rfl⟩, hparts⟩ := ih ho
    exact ⟨hQ, Set.forall_mem_insert.2 ⟨hk, hparts⟩⟩

theorem isSome (h : InTurn s x parts Q o) (hparts : ∀ p ∈ parts, (p.absorb? (p.kept s) (p.share x)).isSome) :
    o.isSome := by
  induction h with
  | done => rfl
  | step _ ih =>
    obtain ⟨hp, hrest⟩ := Set.forall_mem_insert.1 hparts
    exact isSome_bind hp fun k => ih k hrest
  | total _ _ ih => exact ih (Set.forall_mem_insert.1 hparts).2

end InTurn

theorem Splits.of_inTurn {absorb? : σ → α → Option σ} {Q : σ → α → σ → Prop}
    (h : ∀ s x, InTurn s x parts (Q s x) (absorb? s x)) : Splits absorb? parts where
  tracks := by
    intro p hp s x t ht
    exact ((h s x).of_eq_some ht).2 p hp
  isSome := by
    intro s x hparts
    exact (h s x).isSome hparts

end

/-! ### Fields of one kind -/

section
variable {σ κ : Type} {absorb? : σ → σ → Option σ} {fs : List (σ → κ)} {op : κ → κ → Option κ} {s a b : σ}
  {l l' : List σ}

/-- Each of some fields, absorbing the same field of another record. -/
def Part.fields (fs : List (σ → κ)) (op : κ → κ → Option κ) : Set (Part σ σ) := {p | ∃ f ∈ fs, p = .field f op}

theorem Part.forall_mem_fields {P : Part σ σ → Prop} :
    (∀ p ∈ Part.fields fs op, P p) ↔ ∀ f ∈ fs, P (.field f op) := by
  constructor
  · intro h f hf
    exact h _ ⟨f, hf, rfl⟩
  · rintro h p ⟨f, hf, rfl⟩
    exact h f hf

@[simp] theorem Part.fields_nil : Part.fields ([] : List (σ → κ)) op = ∅ := by
  simp [Part.fields]

@[simp] theorem Part.fields_cons (f : σ → κ) : Part.fields (f :: fs) op = insert (.field f op) (Part.fields fs op) := by
  ext p
  simp [Part.fields]

theorem eq_of_tracks_fields (h : ∀ p ∈ Part.fields fs op, Tracks absorb? p) (hfree : OrderFree op Eq)
    (hperm : l.Perm l') (ha : l.foldlM absorb? s = some a) (hb : l'.foldlM absorb? s = some b) :
    ∀ f ∈ fs, f a = f b := by
  intro f hf
  exact (h _ ⟨f, hf, rfl⟩).same hfree hperm ha hb

end

end ClusterMetrics
