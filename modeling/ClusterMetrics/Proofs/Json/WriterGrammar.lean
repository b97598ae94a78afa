import ClusterMetrics.Json.Writer
import ClusterMetrics.Proofs.Json.ReaderComplete

/-! # What is written is read again

A value whose numbers and strings are texts of the grammar is written, in either layout, as a text of the grammar, and
so the reader gives it back (`parse?_compact`, `parse?_pretty`). -/

namespace ClusterMetrics.Json

/-- Numbers and strings are texts of the grammar. -/
inductive WellFormed : Json → Prop where
  | null : WellFormed null
  | bool (b : Bool) : WellFormed (bool b)
  | number {text : Bytes} (h : NumberText text) : WellFormed (number text)
  | string {text : Bytes} (h : StringText text) : WellFormed (string text)
  | array {items : List Json} (h : ∀ v ∈ items, WellFormed v) : WellFormed (array items)
  | object {members : List (Bytes × Json)} (hkeys : ∀ m ∈ members, StringText m.1)
      (hvalues : ∀ m ∈ members, WellFormed m.2) : WellFormed (object members)

theorem WellFormed.items {items : List Json} (h : (Json.array items).WellFormed) : ∀ v ∈ items, v.WellFormed := by
  cases h with
  | array h => exact h

theorem WellFormed.members {members : List (Bytes × Json)} (h : (Json.object members).WellFormed) :
    (∀ m ∈ members, StringText m.1) ∧ ∀ m ∈ members, m.2.WellFormed := by
  cases h with
  | object hkeys hvalues => exact ⟨hkeys, hvalues⟩

theorem Derives.toItem {v : Json} {text : Bytes} (h : Derives (.value v) text) : Derives (.item v) text := by
  have hitem := Derives.item .nil h .nil
  rwa [List.nil_append, List.append_nil] at hitem

/-! ### Compact -/

theorem derives_compactItems {items : List Json} (hne : items ≠ []) (h : ∀ v ∈ items, Derives (.value v) v.compact) :
    Derives (.items items) (compactItems items) := by
  induction items with
  | nil => exact absurd rfl hne
  | cons v items ih =>
    obtain ⟨hv, hitems⟩ := List.forall_mem_cons.1 h
    cases items with
    | nil => exact .lastItem hv.toItem
    | cons w items => exact .moreItems hv.toItem (ih (List.cons_ne_nil _ _) hitems)

theorem derives_compactMember {key : Bytes} {v : Json} (hk : StringText key) (h : Derives (.value v) v.compact) :
    Derives (.member key v) (quoted key ++ Byte.colon :: v.compact) := by
  have hmember := Derives.member .nil hk .nil h.toItem
  rwa [List.nil_append, List.append_nil] at hmember

theorem derives_compactMembers {members : List (Bytes × Json)} (hne : members ≠ [])
    (hkeys : ∀ m ∈ members, StringText m.1) (h : ∀ m ∈ members, Derives (.value m.2) m.2.compact) :
    Derives (.members members) (compactMembers members) := by
  induction members with
  | nil => exact absurd rfl hne
  | cons m members ih =>
    obtain ⟨key, v⟩ := m
    obtain ⟨hkey, hkeys⟩ := List.forall_mem_cons.1 hkeys
    obtain ⟨hv, hmembers⟩ := List.forall_mem_cons.1 h
    cases members with
    | nil => exact .lastMember (derives_compactMember hkey hv)
    | cons w members =>
      exact .moreMembers (derives_compactMember hkey hv) (ih (List.cons_ne_nil _ _) hkeys hmembers)

theorem derives_compact {j : Json} (h : j.WellFormed) : Derives (.value j) j.compact := by
  induction h with
  | null => exact .null
  | bool b => cases b <;> constructor
  | number h => exact .number h
  | string h => exact .string h
  | @array items _ ih =>
    rw [compact]
    cases items with
    | nil => exact .emptyArray .nil
    | cons v items => exact .array (derives_compactItems (List.cons_ne_nil _ _) ih)
  | @object members hkeys _ ih =>
    rw [compact]
    cases members with
    | nil => exact .emptyObject .nil
    | cons m members => exact .object (derives_compactMembers (List.cons_ne_nil _ _) hkeys ih)

/-! ### Pretty -/

theorem blanks_newline (depth : Nat) : Blanks (newline depth) :=
  .cons rfl fun b hb => by rw [List.eq_of_mem_replicate hb]; rfl

theorem blanks_space : Blanks [0x20] := .cons rfl .nil

theorem derives_prettyItems {v : Json} {items : List Json} {depth : Nat} (outer : Nat)
    (hv : Derives (.value v) (prettyAt depth v)) (h : ∀ w ∈ items, Derives (.value w) (prettyAt depth w)) :
    Derives (.items (v :: items)) (newline depth ++ prettyAt depth v ++ prettyItems depth items ++ newline outer) := by
  induction items generalizing v with
  | nil =>
    rw [prettyItems, List.append_nil]
    exact .lastItem (.item (blanks_newline depth) hv (blanks_newline outer))
  | cons w items ih =>
    obtain ⟨hw, hitems⟩ := List.forall_mem_cons.1 h
    have hmore := Derives.moreItems (.item (blanks_newline depth) hv .nil) (ih hw hitems)
    simpa [prettyItems, List.append_assoc] using hmore

theorem derives_prettyMember {key : Bytes} {v : Json} {depth : Nat} {after : Bytes} (hk : StringText key)
    (h : Derives (.value v) (prettyAt depth v)) (ha : Blanks after) : Derives (.member key v)
      (newline depth ++ quoted key ++ [Byte.colon, 0x20] ++ prettyAt depth v ++ after) := by
  have hmember := Derives.member (blanks_newline depth) hk .nil (.item blanks_space h ha)
  simpa [quoted, List.append_assoc] using hmember

theorem derives_prettyMembers {key : Bytes} {v : Json} {members : List (Bytes × Json)} {depth : Nat} (outer : Nat)
    (hk : StringText key) (hv : Derives (.value v) (prettyAt depth v)) (hkeys : ∀ m ∈ members, StringText m.1)
    (h : ∀ m ∈ members, Derives (.value m.2) (prettyAt depth m.2)) : Derives (.members ((key, v) :: members))
      (newline depth ++ quoted key ++ [Byte.colon, 0x20] ++ prettyAt depth v ++ prettyMembers depth members ++
        newline outer) := by
  induction members generalizing key v with
  | nil =>
    rw [prettyMembers, List.append_nil]
    exact .lastMember (derives_prettyMember hk hv (blanks_newline outer))
  | cons m members ih =>
    obtain ⟨key', w⟩ := m
    obtain ⟨hkey', hkeys⟩ := List.forall_mem_cons.1 hkeys
    obtain ⟨hw, hmembers⟩ := List.forall_mem_cons.1 h
    have hmore := Derives.moreMembers (derives_prettyMember hk hv .nil) (ih hkey' hw hkeys hmembers)
    simpa [prettyMembers, List.append_assoc] using hmore

theorem derives_prettyAt {j : Json} (h : j.WellFormed) (depth : Nat) : Derives (.value j) (prettyAt depth j) := by
  induction h generalizing depth with
  | null => exact .null
  | bool b => cases b <;> constructor
  | number h => exact .number h
  | string h => exact .string h
  | @array items _ ih =>
    cases items with
    | nil => exact .emptyArray .nil
    | cons v items =>
      obtain ⟨hv, hitems⟩ := List.forall_mem_cons.1 ih
      have harray := Derives.array (derives_prettyItems depth (hv (depth + 1)) fun w hw => hitems w hw _)
      simpa [prettyAt, List.append_assoc] using harray
  | @object members hkeys _ ih =>
    cases members with
    | nil => exact .emptyObject .nil
    | cons m members =>
      obtain ⟨key, v⟩ := m
      obtain ⟨hk, hkeys⟩ := List.forall_mem_cons.1 hkeys
      obtain ⟨hv, hmembers⟩ := List.forall_mem_cons.1 ih
      have hobject := Derives.object
        (derives_prettyMembers depth hk (hv (depth + 1)) hkeys fun m hm => hmembers m hm _)
      simpa [prettyAt, List.append_assoc] using hobject

/-! ### Reading what was written -/

theorem parse?_compact {j : Json} (h : j.WellFormed) : parse? j.compact = some j :=
  parse?_eq_some_iff.2 (derives_compact h).toItem

theorem parse?_pretty {j : Json} (h : j.WellFormed) : parse? j.pretty = some j :=
  parse?_eq_some_iff.2 (derives_prettyAt h 0).toItem

/-! ### Values that were read -/

def Phrase.WellFormed : Phrase → Prop
  | .value v | .item v => v.WellFormed
  | .items vs => ∀ v ∈ vs, v.WellFormed
  | .member key v => StringText key ∧ v.WellFormed
  | .members ms => ∀ m ∈ ms, StringText m.1 ∧ m.2.WellFormed

theorem Derives.wellFormed {p : Phrase} {text : Bytes} (h : Derives p text) : p.WellFormed := by
  induction h with
  | null => exact .null
  | true | false => exact .bool _
  | number h => exact .number h
  | string h => exact .string h
  | emptyArray => exact .array nofun
  | array _ ih => exact .array ih
  | emptyObject => exact .object nofun nofun
  | object _ ih => exact .object (fun m hm => (ih m hm).1) fun m hm => (ih m hm).2
  | item _ _ _ ih => exact ih
  | lastItem _ ih => exact List.forall_mem_singleton.2 ih
  | moreItems _ _ ih ihs => exact List.forall_mem_cons.2 ⟨ih, ihs⟩
  | member _ hk _ _ ih => exact ⟨hk, ih⟩
  | lastMember _ ih => exact List.forall_mem_singleton.2 ih
  | moreMembers _ _ ih ihs => exact List.forall_mem_cons.2 ⟨ih, ihs⟩

theorem wellFormed_of_parse? {bytes : Bytes} {j : Json} (h : parse? bytes = some j) : j.WellFormed :=
  (parse?_eq_some_iff.1 h).wellFormed

end ClusterMetrics.Json
