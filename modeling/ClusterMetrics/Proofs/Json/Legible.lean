import ClusterMetrics.Proofs.Json.DoubleTexts
import ClusterMetrics.Proofs.Json.ReadValues
import ClusterMetrics.Proofs.Json.RoundTrips

/-! # Texts that are read again at all

The text of a value may be refused when it is read again, or be read as another value. What decides are the timestamps
and doubles within the value, its leaves: a codec reopens a value if its text is read exactly if all leaves are legible
(`Codec.Reopens`). Containers reopen what they hold if they reopen each item, and a record is reopened if each of its
fields is (`ReopensFields`). -/

namespace ClusterMetrics

/-! ### Leaves -/

/-- A timestamp or a double within a value. -/
inductive Leaf where
  | time (t : Timestamp)
  | double (x : Binary64)

/-- What is written of the leaf is read, perhaps as another value. -/
def Leaf.IsLegible : Leaf → Prop
  | time t => (Timestamp.parse? t.format).isSome
  | double x => x.IsFinite

/-- Types whose values hold timestamps and doubles. -/
class HasLeaves (α : Type) where
  leaves : α → List Leaf

open HasLeaves (leaves)

/-- All leaves of the value satisfy `P`. -/
def Every {α : Type} [HasLeaves α] (P : Leaf → Prop) (a : α) : Prop := ∀ l ∈ leaves a, P l

section
variable {α : Type} [HasLeaves α] {P : Leaf → Prop}

instance : HasLeaves Timestamp := ⟨fun t => [.time t]⟩

instance : HasLeaves Binary64 := ⟨fun x => [.double x]⟩

instance : HasLeaves (Option α) := ⟨fun o => o.toList.flatMap leaves⟩

instance : HasLeaves (List α) := ⟨fun as => as.flatMap leaves⟩

instance : HasLeaves (KeyMap α) := ⟨fun m => m.entries.flatMap fun p => leaves p.2⟩

@[simp] theorem every_time {t : Timestamp} : Every P t ↔ P (.time t) := List.forall_mem_singleton

@[simp] theorem every_double {x : Binary64} : Every P x ↔ P (.double x) := List.forall_mem_singleton

@[simp] theorem every_option {o : Option α} : Every P o ↔ ∀ a ∈ o, Every P a :=
  List.forall_mem_flatMap.trans (forall_congr' fun _ => imp_congr Option.mem_toList Iff.rfl)

@[simp] theorem every_list {as : List α} : Every P as ↔ ∀ a ∈ as, Every P a := List.forall_mem_flatMap

@[simp] theorem every_keyMap {m : KeyMap α} : Every P m ↔ ∀ p ∈ m.entries, Every P p.2 := List.forall_mem_flatMap

theorem every_none : Every P (none : Option α) := every_option.2 nofun

theorem every_nil : Every P ([] : List α) := every_list.2 nofun

theorem every_empty : Every P (KeyMap.empty : KeyMap α) := every_keyMap.2 nofun

end

/-! ### Leaves that were read -/

/-- The leaf is such as can be read. -/
def Leaf.IsDecoded : Leaf → Prop
  | time t => t.Storable ∨ t.IsLate
  | double x => x.IsFinite

/-- A timestamp is legible if it was read and is not late. -/
theorem Leaf.isLegible_time_iff {t : Timestamp} (h : (time t).IsDecoded) : (time t).IsLegible ↔ ¬ t.IsLate := by
  constructor
  · intro hlegible hlate
    rw [IsLegible, Timestamp.parse?_format_of_isLate hlate] at hlegible
    cases hlegible
  · intro hlate
    rw [IsLegible, Timestamp.parse?_format (h.resolve_right hlate)]
    rfl

theorem every_isDecoded_zero : Every Leaf.IsDecoded Timestamp.zero := every_time.2 (.inl trivial)

namespace Codec.Yields
variable {α : Type} [HasLeaves α] {c : Codec α} {P : Leaf → Prop}

theorem isDecoded_timestamp : Timestamp.codec.Yields (Every Leaf.IsDecoded) := by
  intro depth j t h
  refine every_time.2 ?_
  cases j with
  | null => cases h; exact .inl trivial
  | string text =>
    obtain ⟨s, -, hs⟩ := Option.bind_eq_some_iff.1 h
    exact Timestamp.storable_or_isLate hs
  | _ => cases h

theorem isDecoded_double : Codec.double.Yields (Every Leaf.IsDecoded) := fun _ _ _ h =>
  every_double.2 (Json.isFinite_of_double? h)

theorem every_list (h : c.Yields (Every P)) : c.list.Yields (Every P) := fun _ _ _ ha =>
  ClusterMetrics.every_list.2 (h.list ha)

theorem every_keyMap (h : c.Yields (Every P)) : c.keyMap.Yields (Every P) := fun _ _ _ ha =>
  ClusterMetrics.every_keyMap.2 (h.keyMap ha)

theorem every_option (h : c.Yields (Every P)) : c.option.Yields (Every P) := fun _ _ _ ha =>
  ClusterMetrics.every_option.2 (h.option ha)

end Codec.Yields

/-! ### Values that are read again -/

/-- What is written of the value is a text of the grammar, and it is read exactly if every leaf is legible. -/
structure Codec.Reopens {α : Type} [HasLeaves α] (c : Codec α) (a : α) : Prop where
  wellFormed : (c.write a).WellFormed
  isSome_read : ∀ {depth}, (c.write a).nesting ≤ depth →
    ((c.read depth (c.write a)).isSome ↔ Every Leaf.IsLegible a)

theorem isSome_mapM_iff {α β : Type} {f : α → Option β} {as : List α} :
    (as.mapM f).isSome ↔ ∀ a ∈ as, (f a).isSome := by
  induction as with
  | nil => exact iff_of_true rfl nofun
  | cons a as ih =>
    rw [List.mapM_cons, List.forall_mem_cons, ← ih]
    cases f a with
    | none => exact iff_of_false nofun fun h => nomatch h.1
    | some b => cases as.mapM f <;> simp

theorem isSome_bind_some {α β : Type} (o : Option α) (f : α → β) : (o.bind fun a => some (f a)).isSome = o.isSome := by
  cases o <;> rfl

namespace Codec.Reopens
variable {α : Type} [HasLeaves α] {c : Codec α}

theorem isSome_decode? {a : α} (h : c.Reopens a) (hdepth : (c.write a).nesting ≤ Json.depthLimit) :
    ((c.decode? (c.compact a)).isSome ↔ Every Leaf.IsLegible a) ∧
      ((c.decode? (c.pretty a)).isSome ↔ Every Leaf.IsLegible a) := by
  constructor
  · rw [decode?, compact, Json.parse?_compact h.wellFormed]
    exact h.isSome_read hdepth
  · rw [decode?, pretty, Json.parse?_pretty h.wellFormed]
    exact h.isSome_read hdepth

theorem timestamp (t : Timestamp) : Timestamp.codec.Reopens t := by
  refine ⟨.string (Json.stringText_encodeText _), fun _ => ?_⟩
  show ((Json.ofText t.format).text?.bind Timestamp.parse?).isSome ↔ _
  rw [Json.text?_ofText, Option.bind_some, every_time]
  rfl

theorem double (x : Binary64) : Codec.double.Reopens x := by
  refine ⟨?_, fun _ => (Json.isSome_double?_ofBinary64 x).trans (every_double (P := Leaf.IsLegible)).symm⟩
  cases x with
  | finite y => exact .number (Json.numberText_toChars y)
  | infinite s => exact .null
  | nan => exact .null

theorem list {as : List α} (h : ∀ a ∈ as, c.Reopens a) : c.list.Reopens as := by
  refine ⟨.array (List.forall_mem_map.2 fun a ha => (h a ha).wellFormed), fun hdepth => ?_⟩
  obtain ⟨depth, rfl, hitems⟩ := Json.nesting_array_le hdepth
  show ((as.map c.write).mapM (c.read depth)).isSome ↔ _
  rw [isSome_mapM_iff, List.forall_mem_map, every_list]
  exact forall₂_congr fun a ha => (h a ha).isSome_read (hitems _ (List.mem_map_of_mem ha))

theorem keyMap {m : KeyMap α} (h : ∀ p ∈ m.entries, c.Reopens p.2) : c.keyMap.Reopens m := by
  refine ⟨Json.wellFormed_object_map fun p hp => (h p hp).wellFormed, fun hdepth => ?_⟩
  obtain ⟨depth, rfl, hvalues⟩ := Json.nesting_object_le hdepth
  rw [Codec.read_write_keyMap, isSome_bind_some, isSome_mapM_iff, List.forall_mem_map, every_keyMap]
  refine forall₂_congr fun p hp => ?_
  rw [← (h p hp).isSome_read (hvalues _ (List.mem_map_of_mem hp)), isSome_bind_some]

theorem option {o : Option α} (h : ∀ a ∈ o, c.Reopens a) (hnull : ∀ a, c.write a ≠ .null) : c.option.Reopens o := by
  cases o with
  | none => exact ⟨.null, fun _ => iff_of_true (by rw [Codec.option]; rfl) every_none⟩
  | some a =>
    have ha := h a rfl
    refine ⟨ha.wellFormed, fun {depth} hdepth => ?_⟩
    have hsome : c.option.read depth (c.option.write (some a)) = (c.read depth (c.write a)).map some :=
      Codec.read_option (hnull a)
    rw [hsome, Option.isSome_map, ha.isSome_read hdepth, every_option]
    exact ⟨fun ha b hb => Option.some.inj hb ▸ ha, fun ha => ha a rfl⟩

theorem orDefault [Inhabited α] {a : α} (h : c.Reopens a) (hnull : c.write a ≠ .null) : c.orDefault.Reopens a := by
  refine ⟨h.wellFormed, fun {depth} hdepth => ?_⟩
  have hsame : c.orDefault.read depth (c.orDefault.write a) = c.read depth (c.write a) := Codec.read_orDefault hnull
  rw [hsame, h.isSome_read hdepth]

end Codec.Reopens

/-! ### Records -/

section
variable {σ ρ : Type} {f : Field σ} {fields gs : List (Field σ)} {s t : σ} {Q R : Prop}

/-- What is written of the field in `s`, if anything, is read exactly if `Q`. -/
structure Field.Reopens (f : Field σ) (s : σ) (Q : Prop) : Prop where
  wellFormed : (f.codec.write (f.get s)).WellFormed
  isSome_read : ∀ {depth}, (f.codec.write (f.get s)).nesting ≤ depth →
    ((f.codec.read depth (f.codec.write (f.get s))).isSome ↔ Q)
  of_isOmitted : f.isOmitted (f.get s) = true → f.isRequired = false ∧ Q

/-- What is written of these fields of `s` is read exactly if `Q`. -/
inductive ReopensFields (s : σ) : List (Field σ) → Prop → Prop where
  | nil : ReopensFields s [] True
  | cons {f : Field σ} {fields : List (Field σ)} {Q R : Prop} (h : f.Reopens s Q) (hs : ReopensFields s fields R) :
    ReopensFields s (f :: fields) (Q ∧ R)

namespace ReopensFields
variable {τ : Type} {name : String} {codec : Codec τ}

/-- Before the last field with leaves. -/
theorem last (h : ReopensFields s fields (Q ∧ True)) : ReopensFields s fields Q := by rwa [and_true] at h

/-- A field that is read as it was written says nothing of leaves. -/
theorem keeps (h : f.codec.Keeps (f.get s)) (ho : f.isRequired = false) (hs : ReopensFields s fields R) :
    ReopensFields s (f :: fields) R := by
  rw [← true_and R]
  refine .cons ⟨h.wellFormed, fun hdepth => iff_of_true ?_ trivial, fun _ => ⟨ho, trivial⟩⟩ hs
  rw [h.read_write hdepth]
  rfl

theorem omittable [HasLeaves τ] {isOmitted : τ → Bool} {get : σ → τ} {set : τ → σ → σ} (h : codec.Reopens (get s))
    (ho : isOmitted (get s) = true → Every Leaf.IsLegible (get s)) (hs : ReopensFields s fields R) :
    ReopensFields s (.omittable name codec isOmitted get set :: fields) (Every Leaf.IsLegible (get s) ∧ R) :=
  .cons ⟨h.wellFormed, h.isSome_read, fun homitted => ⟨rfl, ho homitted⟩⟩ hs

theorem plain [HasLeaves τ] {get : σ → τ} {set : τ → σ → σ} (h : codec.Reopens (get s))
    (hs : ReopensFields s fields R) :
    ReopensFields s (.plain name codec get set :: fields) (Every Leaf.IsLegible (get s) ∧ R) := omittable h nofun hs

theorem optional [HasLeaves τ] {get : σ → Option τ} {set : Option τ → σ → σ} (h : ∀ a ∈ get s, codec.Reopens a)
    (hnull : ∀ a, codec.write a ≠ .null) (hs : ReopensFields s fields R) :
    ReopensFields s (.optional name codec get set :: fields) (Every Leaf.IsLegible (get s) ∧ R) := by
  refine omittable (.option h hnull) (fun ho => ?_) hs
  rw [Option.isNone_iff_eq_none.1 ho]
  exact every_none

theorem optionalList [HasLeaves τ] {get : σ → List τ} {set : List τ → σ → σ} (h : ∀ a ∈ get s, codec.Reopens a)
    (hs : ReopensFields s fields R) :
    ReopensFields s (.optionalList name codec get set :: fields) (Every Leaf.IsLegible (get s) ∧ R) := by
  refine omittable (.orDefault (.list h) nofun) (fun ho => ?_) hs
  rw [List.isEmpty_iff.1 ho]
  exact every_nil

theorem optionalMap [HasLeaves τ] {get : σ → KeyMap τ} {set : KeyMap τ → σ → σ}
    (h : ∀ p ∈ (get s).entries, codec.Reopens p.2) (hs : ReopensFields s fields R) :
    ReopensFields s (.optionalMap name codec get set :: fields) (Every Leaf.IsLegible (get s) ∧ R) := by
  refine omittable (.orDefault (.keyMap h) nofun) (fun ho => ?_) hs
  rw [KeyMap.eq_empty_of_isEmpty ho]
  exact every_empty

theorem keepsList {get : σ → List τ} {set : List τ → σ → σ} (h : ∀ a ∈ get s, codec.Keeps a)
    (hs : ReopensFields s fields R) : ReopensFields s (.optionalList name codec get set :: fields) R := by
  have hlist : codec.list.orDefault.Keeps (get s) := .orDefault (.list h) nofun
  exact keeps hlist rfl hs

theorem keepsMap {get : σ → KeyMap τ} {set : KeyMap τ → σ → σ} (h : ∀ p ∈ (get s).entries, codec.Keeps p.2)
    (hs : ReopensFields s fields R) : ReopensFields s (.optionalMap name codec get set :: fields) R := by
  have hmap : codec.keyMap.orDefault.Keeps (get s) := .orDefault (.keyMap h) nofun
  exact keeps hmap rfl hs

theorem append (h : ReopensFields s fields Q) (h' : ReopensFields s gs R) : ReopensFields s (fields ++ gs) (Q ∧ R) := by
  induction h with
  | nil => rwa [true_and]
  | cons hf _ ih => rw [and_assoc]; exact .cons hf ih

theorem within {get : ρ → σ} {set : σ → ρ → ρ} {r : ρ} (h : ReopensFields (get r) fields Q) :
    ReopensFields r (fields.map (.within get set)) Q := by
  induction h with
  | nil => exact .nil
  | cons hf _ ih => exact .cons ⟨hf.wellFormed, hf.isSome_read, hf.of_isOmitted⟩ ih

theorem wellFormed_of_mem (h : ReopensFields s fields Q) (hf : f ∈ fields) : (f.codec.write (f.get s)).WellFormed := by
  induction h with
  | nil => cases hf
  | cons hg _ ih =>
    rcases List.mem_cons.1 hf with rfl | hf
    · exact hg.wellFormed
    · exact ih hf

end ReopensFields

namespace Record

theorem isSome_readMembers {members : List (String × Json)} {depth : Nat} (h : ReopensFields s fields Q)
    (hmembers : ∀ f ∈ fields, members.filter (·.1 == f.name) = (f.member? s).toList)
    (hdepth : ∀ p ∈ members, p.2.nesting ≤ depth) : (readMembers fields depth members t).isSome ↔ Q := by
  induction h generalizing t with
  | nil => exact iff_of_true rfl trivial
  | @cons f fields Q R hf _ ih =>
    obtain ⟨hmember, hmembers⟩ := List.forall_mem_cons.1 hmembers
    have hrest : ∀ t, (readMembers fields depth members t).isSome ↔ R := fun t => ih hmembers
    rw [readMembers_cons, readMembers, List.foldlM_cons, hmember]
    by_cases ho : f.isOmitted (f.get s) = true
    · obtain ⟨hrequired, hQ⟩ := hf.of_isOmitted ho
      have hmissing : f.missing t = some t := by rw [Field.missing, hrequired]; rfl
      simpa [Field.member?, ho, hmissing, hQ] using hrest t
    · have hmem : (f.name, f.codec.write (f.get s)) ∈ members := by
        refine List.mem_of_mem_filter (p := (·.1 == f.name)) ?_
        simp [hmember, Field.member?, ho]
      have hread := hf.isSome_read (hdepth _ hmem)
      cases hv : f.codec.read depth (f.codec.write (f.get s)) with
      | none =>
        rw [hv] at hread
        have hQ : ¬ Q := fun hQ => Bool.false_ne_true (hread.2 hQ)
        simp [Field.member?, ho, Field.read, hv, hQ]
      | some v =>
        rw [hv] at hread
        have hQ : Q := hread.1 rfl
        simpa [Field.member?, ho, Field.read, hv, hQ] using hrest (f.set v t)

theorem reopens [HasLeaves σ] {r : Record σ} (hnames : (r.fields.map (·.name)).Nodup)
    (hQ : Every Leaf.IsLegible s ↔ Q) (h : ReopensFields s r.fields Q) : r.codec.Reopens s := by
  refine ⟨wellFormed_write fun f hf => h.wellFormed_of_mem hf, fun hdepth => ?_⟩
  obtain ⟨depth, members, hread, hmembers, hvalues⟩ := read_write hnames hdepth
  rw [hread, isSome_readMembers h hmembers hvalues, hQ]

end Record

end

end ClusterMetrics
