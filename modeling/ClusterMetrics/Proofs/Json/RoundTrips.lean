import ClusterMetrics.Json.Record
import ClusterMetrics.Proofs.Json.Numbers
import ClusterMetrics.Proofs.Json.Strings
import ClusterMetrics.Proofs.Json.WriterGrammar
import ClusterMetrics.Proofs.KeyMap
import ClusterMetrics.Proofs.TimestampTexts
import ClusterMetrics.Timestamp.Codec

/-! # Values that are read again as they were written

A codec keeps a value if the value is written as a text of the grammar and read from it again, wherever the reader may
open so many containers (`Codec.Keeps`). Containers keep what their items keep. A record is kept if each of its fields is
and if reading the fields that were written, in their order, leads from the default to the record (`Restores`): in
particular a field that is left out must hold what it is when its member is missing. -/

namespace ClusterMetrics

/-! ### Nesting -/

namespace Json

mutual

/-- How many containers are nested in one another. -/
def nesting : Json → Nat
  | array items => itemsNesting items + 1
  | object members => membersNesting members + 1
  | _ => 0

def itemsNesting : List Json → Nat
  | [] => 0
  | item :: items => max item.nesting (itemsNesting items)

def membersNesting : List (Bytes × Json) → Nat
  | [] => 0
  | (_, value) :: members => max value.nesting (membersNesting members)

end

theorem itemsNesting_le_iff {items : List Json} {n : Nat} : itemsNesting items ≤ n ↔ ∀ v ∈ items, v.nesting ≤ n := by
  induction items with
  | nil => simp [itemsNesting]
  | cons v items ih => rw [itemsNesting, Nat.max_le, List.forall_mem_cons, ih]

theorem membersNesting_le_iff {members : List (Bytes × Json)} {n : Nat} :
    membersNesting members ≤ n ↔ ∀ m ∈ members, m.2.nesting ≤ n := by
  induction members with
  | nil => simp [membersNesting]
  | cons m members ih => rw [membersNesting, Nat.max_le, List.forall_mem_cons, ih]

theorem nesting_array_le {items : List Json} {n : Nat} (h : (array items).nesting ≤ n) :
    ∃ m, n = m + 1 ∧ ∀ v ∈ items, v.nesting ≤ m := by
  rw [nesting] at h
  cases n with
  | zero => cases h
  | succ m => exact ⟨m, rfl, itemsNesting_le_iff.1 (Nat.le_of_succ_le_succ h)⟩

theorem nesting_object_le {members : List (Bytes × Json)} {n : Nat} (h : (object members).nesting ≤ n) :
    ∃ m, n = m + 1 ∧ ∀ p ∈ members, p.2.nesting ≤ m := by
  rw [nesting] at h
  cases n with
  | zero => cases h
  | succ m => exact ⟨m, rfl, membersNesting_le_iff.1 (Nat.le_of_succ_le_succ h)⟩

end Json

/-! ### Reading what was written -/

theorem mapM_map_of_forall {α β γ : Type} {f : β → Option γ} {g : α → β} {k : α → γ} {as : List α}
    (h : ∀ a ∈ as, f (g a) = some (k a)) : (as.map g).mapM f = some (as.map k) := by
  induction as with
  | nil => rfl
  | cons a as ih =>
    obtain ⟨ha, has⟩ := List.forall_mem_cons.1 h
    rw [List.map_cons, List.mapM_cons, ha, ih has]
    rfl

namespace Json

theorem text?_ofText (s : String) : (ofText s).text? = some s := decodeText?_encodeText s

theorem namedMembers?_map {α : Type} {f : String × α → Json} {es : List (String × α)} :
    namedMembers? (es.map fun p => (encodeText p.1, f p)) = some (es.map fun p => (p.1, f p)) := by
  refine mapM_map_of_forall fun p _ => ?_
  show (decodeText? (encodeText p.1)).bind _ = _
  rw [decodeText?_encodeText]
  rfl

theorem wellFormed_object_map {α : Type} {f : String × α → Json} {es : List (String × α)}
    (h : ∀ p ∈ es, (f p).WellFormed) : (object (es.map fun p => (encodeText p.1, f p))).WellFormed :=
  .object (List.forall_mem_map.2 fun p _ => stringText_encodeText p.1) (List.forall_mem_map.2 h)

end Json

/-- Of what is written for a map, the values are read, each under its key. -/
theorem Codec.read_write_keyMap {α : Type} (c : Codec α) (depth : Nat) (m : KeyMap α) :
    c.keyMap.read (depth + 1) (c.keyMap.write m) =
      ((m.entries.map fun p => (p.1, c.write p.2)).mapM fun p => (c.read depth p.2).bind fun a => some (p.1, a)).bind
        fun es => some (KeyMap.ofList es) := by
  show (Json.namedMembers? (m.entries.map fun p => (Json.encodeText p.1, c.write p.2))).bind
    (fun named => (named.mapM fun p => (c.read depth p.2).bind fun a => some (p.1, a)).bind fun es =>
      some (KeyMap.ofList es)) = _
  rw [Json.namedMembers?_map, Option.bind_some]

/-! ### Kept values -/

/-- The value is written as a text of the grammar and read again as it was. -/
structure Codec.Keeps {α : Type} (c : Codec α) (a : α) : Prop where
  wellFormed : (c.write a).WellFormed
  read_write : ∀ {depth}, (c.write a).nesting ≤ depth → c.read depth (c.write a) = some a

/-- Finite, and with a text that is read as it. The reader rounds more than once, so that not every double has one. -/
structure Binary64.Storable (x : Binary64) : Prop where
  finite : ∃ y, x = finite y
  double?_eq : (Json.ofBinary64 x).double? = some x

namespace Codec.Keeps
variable {α : Type} {c : Codec α}

/-- A value that is kept is read from its text in either layout. -/
theorem decode?_eq {a : α} (h : c.Keeps a) (hdepth : (c.write a).nesting ≤ Json.depthLimit) :
    c.decode? (c.compact a) = some a ∧ c.decode? (c.pretty a) = some a := by
  constructor
  · rw [decode?, compact, Json.parse?_compact h.wellFormed]
    exact h.read_write hdepth
  · rw [decode?, pretty, Json.parse?_pretty h.wellFormed]
    exact h.read_write hdepth

/-! ### Scalars -/

theorem bool (b : Bool) : Codec.bool.Keeps b := ⟨.bool b, fun _ => rfl⟩

theorem text (s : String) : Codec.text.Keeps s :=
  ⟨.string (Json.stringText_encodeText s), fun _ => Json.text?_ofText s⟩

theorem integer {low high : Int} {ofInt : Int → α} {toInt : α → Int} {a : α} (hlow : low ≤ toInt a)
    (hhigh : toInt a ≤ high) (h : ofInt (toInt a) = a) : (Codec.integer low high ofInt toInt).Keeps a := by
  refine ⟨.number (Json.numberText_ofInt _), fun _ => ?_⟩
  simp [Codec.integer, Json.integer?_ofInt, Option.filter, hlow, hhigh, h]

theorem uint64 (n : UInt64) : Codec.uint64.Keeps n :=
  integer (Int.natCast_nonneg _) (by have := n.toNat_lt; omega) (by simp)

theorem uint32 (n : UInt32) : Codec.uint32.Keeps n :=
  integer (Int.natCast_nonneg _) (by have := n.toNat_lt; omega) (by simp)

theorem int64 (n : Int64) : Codec.int64.Keeps n :=
  integer n.le_toInt (by have := n.toInt_lt; omega) (by simp)

theorem int32 (n : Int32) : Codec.int32.Keeps n :=
  integer n.le_toInt (by have := n.toInt_lt; omega) (by simp)

theorem double {x : Binary64} (h : x.Storable) : Codec.double.Keeps x := by
  obtain ⟨⟨y, rfl⟩, hread⟩ := h
  exact ⟨.number (Json.numberText_toChars y), fun _ => hread⟩

theorem timestamp {t : Timestamp} (h : t.Storable) : Timestamp.codec.Keeps t := by
  refine ⟨.string (Json.stringText_encodeText _), fun _ => ?_⟩
  show (Json.ofText t.format).text?.bind Timestamp.parse? = some t
  rw [Json.text?_ofText, Option.bind_some, Timestamp.parse?_format h]

/-! ### Containers -/

theorem list {as : List α} (h : ∀ a ∈ as, c.Keeps a) : c.list.Keeps as := by
  refine ⟨.array (List.forall_mem_map.2 fun a ha => (h a ha).wellFormed), fun hdepth => ?_⟩
  obtain ⟨depth, rfl, hitems⟩ := Json.nesting_array_le hdepth
  have hread : ∀ a ∈ as, c.read depth (c.write a) = some a := fun a ha =>
    (h a ha).read_write (hitems _ (List.mem_map_of_mem ha))
  show (as.map c.write).mapM (c.read depth) = some as
  rw [mapM_map_of_forall hread, List.map_id']

theorem keyMap {m : KeyMap α} (h : ∀ p ∈ m.entries, c.Keeps p.2) : c.keyMap.Keeps m := by
  refine ⟨Json.wellFormed_object_map fun p hp => (h p hp).wellFormed, fun hdepth => ?_⟩
  obtain ⟨depth, rfl, hvalues⟩ := Json.nesting_object_le hdepth
  have hread : ∀ p ∈ m.entries, (c.read depth (c.write p.2)).bind (fun a => some (p.1, a)) = some p := by
    intro p hp
    rw [(h p hp).read_write (hvalues _ (List.mem_map_of_mem hp))]
    rfl
  have hentries := mapM_map_of_forall (f := fun p : String × Json => (c.read depth p.2).bind fun a => some (p.1, a))
    (g := fun p => (p.1, c.write p.2)) (k := id) hread
  rw [Codec.read_write_keyMap, hentries, Option.bind_some, List.map_id, KeyMap.ofList_entries]

theorem option {o : Option α} (h : ∀ a ∈ o, c.Keeps a) (hnull : ∀ a, c.write a ≠ .null) : c.option.Keeps o := by
  cases o with
  | none => exact ⟨.null, fun _ => by rw [Codec.option]⟩
  | some a =>
    have ha := h a rfl
    refine ⟨ha.wellFormed, fun hdepth => (Codec.read_option (hnull a)).trans ?_⟩
    exact congrArg (Option.map some) (ha.read_write hdepth)

theorem orDefault [Inhabited α] {a : α} (h : c.Keeps a) (hnull : c.write a ≠ .null) : c.orDefault.Keeps a := by
  exact ⟨h.wellFormed, fun hdepth => (Codec.read_orDefault hnull).trans (h.read_write hdepth)⟩

end Codec.Keeps

/-! ### Records -/

section
variable {σ ρ : Type} {f : Field σ} {fields gs : List (Field σ)} {s t u v : σ}

/-- What is written of the field in `s` takes the field of `t` to what it is in `s`. -/
structure Field.Restores (f : Field σ) (s t : σ) : Prop where
  keeps : f.codec.Keeps (f.get s)
  of_isOmitted : f.isOmitted (f.get s) = true → f.isRequired = false ∧ f.set (f.get s) t = t

/-- Reading what is written of these fields of `s`, in their order, leads from `t` to `u`. -/
inductive Restores (s : σ) : List (Field σ) → σ → σ → Prop where
  | nil {t : σ} : Restores s [] t t
  | cons {f : Field σ} {fields : List (Field σ)} {t u : σ} (h : f.Restores s t)
      (hs : Restores s fields (f.set (f.get s) t) u) : Restores s (f :: fields) t u

theorem Field.Restores.within {get : ρ → σ} {set : σ → ρ → ρ} {r r' : ρ} (hset : set (get r') r' = r')
    (h : f.Restores (get r) (get r')) : (Field.within get set f).Restores r r' := by
  refine ⟨h.keeps, fun ho => ?_⟩
  obtain ⟨hrequired, heq⟩ := h.of_isOmitted ho
  refine ⟨hrequired, ?_⟩
  show set (f.set (f.get (get r)) (get r')) r' = r'
  rw [heq, hset]

namespace Restores
variable {τ : Type} {name : String} {codec : Codec τ}

theorem omittable {isOmitted : τ → Bool} {get : σ → τ} {set : τ → σ → σ} (h : codec.Keeps (get s))
    (hset : isOmitted (get s) = true → set (get s) t = t) (hs : Restores s fields (set (get s) t) u) :
    Restores s (.omittable name codec isOmitted get set :: fields) t u :=
  .cons ⟨h, fun ho => ⟨rfl, hset ho⟩⟩ hs

theorem plain {get : σ → τ} {set : τ → σ → σ} (h : codec.Keeps (get s))
    (hs : Restores s fields (set (get s) t) u) : Restores s (.plain name codec get set :: fields) t u :=
  .cons ⟨h, nofun⟩ hs

theorem required {get : σ → τ} {set : τ → σ → σ} (h : codec.Keeps (get s))
    (hs : Restores s fields (set (get s) t) u) : Restores s (.required name codec get set :: fields) t u :=
  .cons ⟨h, nofun⟩ hs

theorem counter {get : σ → UInt64} {set : UInt64 → σ → σ} (hset : set 0 t = t)
    (hs : Restores s fields (set (get s) t) u) : Restores s (.counter name get set :: fields) t u := by
  refine omittable (.uint64 _) (fun ho => ?_) hs
  rw [beq_iff_eq.1 ho, hset]

theorem optionalText {get : σ → String} {set : String → σ → σ} (hset : set "" t = t)
    (hs : Restores s fields (set (get s) t) u) : Restores s (.optionalText name get set :: fields) t u := by
  refine omittable (.text _) (fun ho => ?_) hs
  rw [String.isEmpty_iff.1 ho, hset]

theorem optional {get : σ → Option τ} {set : Option τ → σ → σ} (h : ∀ a ∈ get s, codec.Keeps a)
    (hnull : ∀ a, codec.write a ≠ .null) (hset : set none t = t) (hs : Restores s fields (set (get s) t) u) :
    Restores s (.optional name codec get set :: fields) t u := by
  refine omittable (.option h hnull) (fun ho => ?_) hs
  rw [Option.isNone_iff_eq_none.1 ho, hset]

theorem optionalList {get : σ → List τ} {set : List τ → σ → σ} (h : ∀ a ∈ get s, codec.Keeps a)
    (hset : set [] t = t) (hs : Restores s fields (set (get s) t) u) :
    Restores s (.optionalList name codec get set :: fields) t u := by
  refine omittable (.orDefault (.list h) nofun) (fun ho => ?_) hs
  rw [List.isEmpty_iff.1 ho, hset]

theorem optionalMap {get : σ → KeyMap τ} {set : KeyMap τ → σ → σ} (h : ∀ p ∈ (get s).entries, codec.Keeps p.2)
    (hset : set .empty t = t) (hs : Restores s fields (set (get s) t) u) :
    Restores s (.optionalMap name codec get set :: fields) t u := by
  refine omittable (.orDefault (.keyMap h) nofun) (fun ho => ?_) hs
  rw [KeyMap.eq_empty_of_isEmpty ho, hset]

end Restores

theorem Restores.append (h : Restores s fields t u) (h' : Restores s gs u v) : Restores s (fields ++ gs) t v := by
  induction h with
  | nil => exact h'
  | cons hf _ ih => exact .cons hf (ih h')

/-- The fields of a part of a record. The part can be set, what was set last counts, and setting what it is changes
nothing. -/
theorem Restores.within {get : ρ → σ} {set : σ → ρ → ρ} {r r' : ρ} (hget : ∀ p r, get (set p r) = p)
    (hset : ∀ p q r, set p (set q r) = set p r) (hself : ∀ r, set (get r) r = r)
    (h : Restores (get r) fields (get r') u) : Restores r (fields.map (.within get set)) r' (set u r') := by
  -- The record that is read into changes with every field, and the part of it with it.
  generalize ht : get r' = t at h
  induction h generalizing r' with
  | nil => rw [← ht, hself]; exact .nil
  | @cons f fields t u hf _ ih =>
    subst ht
    refine .cons (.within (hself r') hf) ?_
    have hrest := ih (hget (f.set (f.get (get r)) (get r')) r')
    rwa [hset] at hrest

/-- The member that the field is held in, unless it is left out. -/
def Field.member? (f : Field σ) (s : σ) : Option (String × Json) :=
  if f.isOmitted (f.get s) then none else some (f.name, f.codec.write (f.get s))

theorem Field.write_eq (f : Field σ) (s : σ) :
    f.write s = (f.member? s).map fun p => (Json.encodeText p.1, p.2) := by
  unfold write member?
  split <;> rfl

theorem Field.name_of_member? {p : String × Json} (h : f.member? s = some p) : p.1 = f.name := by
  unfold member? at h
  split at h <;> cases h
  rfl

namespace Record

theorem filterMap_write (fields : List (Field σ)) (s : σ) : fields.filterMap (·.write s) =
    (fields.filterMap (·.member? s)).map fun p => (Json.encodeText p.1, p.2) := by
  rw [List.map_filterMap]
  exact congrArg (List.filterMap · fields) (funext fun f => f.write_eq s)

theorem filter_members_of_ne {name : String} (h : ∀ f ∈ fields, f.name ≠ name) :
    (fields.filterMap (·.member? s)).filter (·.1 == name) = [] := by
  refine List.filter_eq_nil_iff.2 fun p hp => ?_
  obtain ⟨f, hf, hmember⟩ := List.mem_filterMap.1 hp
  rw [Field.name_of_member? hmember, beq_iff_eq]
  exact h f hf

/-- Of fields with different names each is found again by its name. -/
theorem filter_members (hnames : (fields.map (·.name)).Nodup) (hf : f ∈ fields) :
    (fields.filterMap (·.member? s)).filter (·.1 == f.name) = (f.member? s).toList := by
  induction fields with
  | nil => cases hf
  | cons g fields ih =>
    obtain ⟨hg, hnames⟩ := List.nodup_cons.1 hnames
    have hhead : (g :: fields).filterMap (·.member? s) = (g.member? s).toList ++ fields.filterMap (·.member? s) := by
      rw [List.filterMap_cons]
      cases g.member? s <;> rfl
    rw [hhead, List.filter_append]
    rcases List.mem_cons.1 hf with rfl | hf
    · have hrest : ∀ g ∈ fields, g.name ≠ f.name := fun g hg' heq => hg (List.mem_map.2 ⟨g, hg', heq⟩)
      rw [filter_members_of_ne hrest, List.append_nil]
      refine List.filter_eq_self.2 fun p hp => ?_
      rw [Field.name_of_member? (Option.mem_toList.1 hp), beq_self_eq_true]
    · rw [ih hnames hf, List.filter_eq_nil_iff.2, List.nil_append]
      intro p hp
      rw [Field.name_of_member? (Option.mem_toList.1 hp), beq_iff_eq]
      exact fun heq => hg (List.mem_map.2 ⟨f, hf, heq.symm⟩)

theorem readMembers_cons (f : Field σ) (fields : List (Field σ)) (depth : Nat) (members : List (String × Json)) (t : σ) :
    readMembers (f :: fields) depth members t = (readMembers [f] depth members t).bind (readMembers fields depth members) := by
  rw [← List.singleton_append, readMembers, List.foldlM_append]
  rfl

theorem readMembers_restores {members : List (String × Json)} {depth : Nat} (h : Restores s fields t u)
    (hmembers : ∀ f ∈ fields, members.filter (·.1 == f.name) = (f.member? s).toList)
    (hdepth : ∀ p ∈ members, p.2.nesting ≤ depth) : readMembers fields depth members t = some u := by
  induction h with
  | nil => rfl
  | @cons f fields t u hf _ ih =>
    obtain ⟨hmember, hmembers⟩ := List.forall_mem_cons.1 hmembers
    have hrest := ih hmembers
    rw [readMembers_cons, readMembers, List.foldlM_cons, hmember]
    -- Either there is no member and the field stays as it is, or there is one and it is read.
    by_cases ho : f.isOmitted (f.get s) = true
    · obtain ⟨hrequired, heq⟩ := hf.of_isOmitted ho
      have hmissing : f.missing t = some t := by rw [Field.missing, hrequired]; rfl
      rw [heq] at hrest
      simpa [Field.member?, ho, hmissing] using hrest
    · have hmem : (f.name, f.codec.write (f.get s)) ∈ members := by
        refine List.mem_of_mem_filter (p := (·.1 == f.name)) ?_
        simp [hmember, Field.member?, ho]
      have hread : f.read depth (f.codec.write (f.get s)) t = some (f.set (f.get s) t) :=
        congrArg (Option.map (f.set · t)) (hf.keeps.read_write (hdepth _ hmem))
      simpa [Field.member?, ho, hread] using hrest

theorem keeps_of_mem (h : Restores s fields t u) (hf : f ∈ fields) : f.codec.Keeps (f.get s) := by
  induction h with
  | nil => cases hf
  | cons hg _ ih =>
    rcases List.mem_cons.1 hf with rfl | hf
    · exact hg.keeps
    · exact ih hf

theorem write_ne_null (r : Record σ) (s : σ) : r.codec.write s ≠ .null := nofun

theorem write_eq (r : Record σ) (s : σ) : r.codec.write s =
    .object ((r.fields.filterMap (·.member? s)).map fun p => (Json.encodeText p.1, p.2)) :=
  congrArg Json.object (filterMap_write r.fields s)

theorem wellFormed_write {r : Record σ} (h : ∀ f ∈ r.fields, (f.codec.write (f.get s)).WellFormed) :
    (r.codec.write s).WellFormed := by
  rw [write_eq]
  refine Json.wellFormed_object_map fun p hp => ?_
  obtain ⟨f, hf, hmember⟩ := List.mem_filterMap.1 hp
  unfold Field.member? at hmember
  split at hmember <;> cases hmember
  exact h f hf

/-- What is written is read field by field, each from its member if there is one. -/
theorem read_write {r : Record σ} (hnames : (r.fields.map (·.name)).Nodup) {depth : Nat}
    (hdepth : (r.codec.write s).nesting ≤ depth) :
    ∃ depth' members, r.codec.read depth (r.codec.write s) = readMembers r.fields depth' members r.default ∧
      (∀ f ∈ r.fields, members.filter (·.1 == f.name) = (f.member? s).toList) ∧
      ∀ p ∈ members, p.2.nesting ≤ depth' := by
  rw [write_eq] at hdepth ⊢
  obtain ⟨depth, rfl, hvalues⟩ := Json.nesting_object_le hdepth
  refine ⟨depth, r.fields.filterMap (·.member? s), ?_, fun f => filter_members hnames, List.forall_mem_map.1 hvalues⟩
  have hrest : restIsReadable r.fields depth (r.fields.filterMap (·.member? s)) = true := by
    refine List.all_eq_true.2 fun p hp => ?_
    obtain ⟨f, hf, hmember⟩ := List.mem_filterMap.1 hp
    refine Bool.or_eq_true_iff.2 (.inl (List.any_eq_true.2 ⟨f, hf, beq_iff_eq.2 ?_⟩))
    exact (Field.name_of_member? hmember).symm
  show (Json.namedMembers? _).bind (fun named => if r.isFlattened && !restIsReadable r.fields depth named then none
    else readMembers r.fields depth named r.default) = _
  rw [Json.namedMembers?_map, List.map_id', Option.bind_some, hrest, Bool.not_true, Bool.and_false]
  rfl

theorem keeps {r : Record σ} (hnames : (r.fields.map (·.name)).Nodup) (h : Restores s r.fields r.default s) :
    r.codec.Keeps s := by
  refine ⟨wellFormed_write fun f hf => (keeps_of_mem h hf).wellFormed, fun hdepth => ?_⟩
  obtain ⟨depth, members, hread, hmembers, hvalues⟩ := read_write hnames hdepth
  rw [hread, readMembers_restores h hmembers hvalues]

end Record

end

/-! ### How deep values are written -/

/-- No value is written with more than `n` containers nested in one another. -/
def Codec.NestsWithin {α : Type} (c : Codec α) (n : Nat) : Prop := ∀ a, (c.write a).nesting ≤ n

theorem Record.nesting_write_le {σ : Type} {r : Record σ} {s : σ} {n : Nat}
    (h : ∀ f ∈ r.fields, f.isOmitted (f.get s) = false → (f.codec.write (f.get s)).nesting ≤ n) :
    (r.codec.write s).nesting ≤ n + 1 := by
  refine Nat.succ_le_succ (Json.membersNesting_le_iff.2 fun m hm => ?_)
  obtain ⟨f, hf, hwrite⟩ := List.mem_filterMap.1 hm
  unfold Field.write at hwrite
  split at hwrite
  next => cases hwrite
  next ho =>
    cases hwrite
    exact h f hf (Bool.eq_false_iff.2 ho)

theorem Codec.nesting_keyMap_le {α : Type} {c : Codec α} {m : KeyMap α} {n : Nat}
    (h : ∀ p ∈ m.entries, (c.write p.2).nesting ≤ n) : (c.keyMap.write m).nesting ≤ n + 1 :=
  Nat.succ_le_succ (Json.membersNesting_le_iff.2 (List.forall_mem_map.2 h))

namespace Codec.NestsWithin
variable {α σ : Type} {c : Codec α} {n : Nat}

theorem bool : Codec.bool.NestsWithin n := fun _ => Nat.zero_le n

theorem text : Codec.text.NestsWithin n := fun _ => Nat.zero_le n

theorem uint64 : Codec.uint64.NestsWithin n := fun _ => Nat.zero_le n

theorem int64 : Codec.int64.NestsWithin n := fun _ => Nat.zero_le n

theorem int32 : Codec.int32.NestsWithin n := fun _ => Nat.zero_le n

theorem double : Codec.double.NestsWithin n := fun x => by cases x <;> exact Nat.zero_le n

theorem timestamp : Timestamp.codec.NestsWithin n := fun _ => Nat.zero_le n

theorem list (h : c.NestsWithin n) : c.list.NestsWithin (n + 1) := by
  intro as
  refine Nat.succ_le_succ (Json.itemsNesting_le_iff.2 ?_)
  exact List.forall_mem_map.2 fun a _ => h a

theorem keyMap (h : c.NestsWithin n) : c.keyMap.NestsWithin (n + 1) := fun _ =>
  nesting_keyMap_le fun p _ => h p.2

theorem option (h : c.NestsWithin n) : c.option.NestsWithin n := by
  intro o
  cases o with
  | none => exact Nat.zero_le n
  | some a => exact h a

theorem orDefault [Inhabited α] (h : c.NestsWithin n) : c.orDefault.NestsWithin n := h

theorem optionalList {name : String} {get : σ → List α} {set : List α → σ → σ} (h : c.NestsWithin n) :
    (Field.optionalList name c get set).codec.NestsWithin (n + 1) := h.list.orDefault

theorem optionalMap {name : String} {get : σ → KeyMap α} {set : KeyMap α → σ → σ} (h : c.NestsWithin n) :
    (Field.optionalMap name c get set).codec.NestsWithin (n + 1) := h.keyMap.orDefault

theorem record {r : Record σ} (h : ∀ f ∈ r.fields, f.codec.NestsWithin n) : r.codec.NestsWithin (n + 1) := fun s =>
  Record.nesting_write_le fun f hf _ => h f hf (f.get s)

end Codec.NestsWithin

/-- The values of a map open a container less than the map. -/
theorem Codec.nesting_value_lt {α : Type} {c : Codec α} {m : KeyMap α} {p : String × α} (hp : p ∈ m.entries) :
    (c.write p.2).nesting < (c.keyMap.write m).nesting := by
  have hvalues := List.forall_mem_map.1 (Json.membersNesting_le_iff.1 (Nat.le_refl
    (Json.membersNesting (m.entries.map fun p => (Json.encodeText p.1, c.write p.2)))))
  exact Nat.lt_succ_of_le (hvalues p hp)

/-- The fields of a record that are not left out open a container less than the record. -/
theorem Record.nesting_field_lt {σ : Type} {r : Record σ} {s : σ} {f : Field σ} (hf : f ∈ r.fields)
    (ho : f.isOmitted (f.get s) = false) : (f.codec.write (f.get s)).nesting < (r.codec.write s).nesting := by
  have hwrite : f.write s = some (Json.encodeText f.name, f.codec.write (f.get s)) := by
    rw [Field.write, ho]
    rfl
  have hmembers : ∀ p ∈ r.fields.filterMap (·.write s), _ := Json.membersNesting_le_iff.1 (Nat.le_refl _)
  exact Nat.lt_succ_of_le (hmembers _ (List.mem_filterMap.2 ⟨f, hf, hwrite⟩))

end ClusterMetrics
