import Mathlib.Data.List.Forall2
import Mathlib.Data.List.Nodup
import ClusterMetrics.Metrics.Rpc
import ClusterMetrics.Proofs.Json.WriterGrammar

/-! # `null` for empty lists and maps

Where a type holds lists and maps is its layout, and which of them `null` is read for is part of it. If some of the
empty lists and maps of a text are replaced by `null`, it is read as the same value if all of them take `null`, and not
read at all if one of them does not (`HasLayout`). The rule goes from the parts of a type to the type. -/

namespace ClusterMetrics
universe u

/-! ### Layouts -/

/-- Where a type holds lists and maps. `takesNull` says of one whether `null` is read as an empty one. -/
inductive Layout where
  /-- Neither an array nor an object is read. -/
  | scalar
  | list (takesNull : Bool) (item : Layout)
  | map (takesNull : Bool) (value : Layout)
  /-- The fields in their order. -/
  | record (fields : List (String × Layout))
  /-- A tree of calls. -/
  | calls

/-- The layout of a record without lists and maps. -/
def Record.flatLayout {σ : Type} (r : Record σ) : Layout := .record (r.fields.map fun f => (f.name, .scalar))

namespace Layout

/-- The layout of a node in a tree of calls. -/
def callsNode : Layout :=
  .record (RpcCounters.fields.map (fun f => (f.name, scalar)) ++
    [("byDestination", .map true .calls), ("byCaller", .map true .calls)])

/-- The layout of a record's member; members that no field is held in count as scalars. -/
def ofMember (fields : List (String × Layout)) (key : Bytes) : Layout :=
  ((Json.decodeText? key).bind (fields.lookup ·)).getD .scalar

/-- A value before and after some empty lists and maps in it were replaced by `null`. -/
structure Change where
  before : Json
  after : Json
  /-- Whether one of those replaced does not take `null`. -/
  refused : Bool

/-- `Nulled l refused before after`: in a value with layout `l`, any number of empty lists and maps were replaced by
`null`, all of which take it unless `refused`. -/
inductive Nulled : Layout → Bool → Json → Json → Prop where
  | same (l : Layout) (j : Json) : Nulled l false j j
  | emptyList (takesNull : Bool) (item : Layout) : Nulled (.list takesNull item) (!takesNull) (.array []) .null
  | emptyMap (takesNull : Bool) (value : Layout) : Nulled (.map takesNull value) (!takesNull) (.object []) .null
  | list (takesNull : Bool) {item : Layout} {changes : List Change}
      (h : ∀ c ∈ changes, Nulled item c.refused c.before c.after) :
      Nulled (.list takesNull item) (changes.any (·.refused)) (.array (changes.map (·.before)))
        (.array (changes.map (·.after)))
  | map (takesNull : Bool) {value : Layout} {changes : List (Bytes × Change)}
      (h : ∀ c ∈ changes, Nulled value c.2.refused c.2.before c.2.after) :
      Nulled (.map takesNull value) (changes.any (·.2.refused)) (.object (changes.map fun c => (c.1, c.2.before)))
        (.object (changes.map fun c => (c.1, c.2.after)))
  | members {fields : List (String × Layout)} {changes : List (Bytes × Change)}
      (h : ∀ c ∈ changes, Nulled (ofMember fields c.1) c.2.refused c.2.before c.2.after) :
      Nulled (.record fields) (changes.any (·.2.refused)) (.object (changes.map fun c => (c.1, c.2.before)))
        (.object (changes.map fun c => (c.1, c.2.after)))
  | items {fields : List (String × Layout)} {changes : List Change} (hlength : changes.length ≤ fields.length)
      (h : ∀ p ∈ changes.zip fields, Nulled p.2.2 p.1.refused p.1.before p.1.after) :
      Nulled (.record fields) (changes.any (·.refused)) (.array (changes.map (·.before)))
        (.array (changes.map (·.after)))
  | calls {refused : Bool} {before after : Json} (h : Nulled callsNode refused before after) :
      Nulled .calls refused before after

theorem eq_of_nulled_scalar {refused : Bool} {before after : Json} (h : Nulled .scalar refused before after) :
    refused = false ∧ after = before := by
  cases h
  exact ⟨rfl, rfl⟩

theorem ofMember_of_mem {fields : List (String × Layout)} (hnames : (fields.map (·.1)).Nodup) {p : String × Layout}
    (hp : p ∈ fields) {key : Bytes} (hkey : Json.decodeText? key = some p.1) : ofMember fields key = p.2 := by
  have hlookup : fields.lookup p.1 = some p.2 := by
    induction fields with
    | nil => cases hp
    | cons q fields ih =>
      obtain ⟨hq, hnames⟩ := List.nodup_cons.1 hnames
      rcases List.mem_cons.1 hp with rfl | hp
      · exact List.lookup_cons_self
      · have hne : (p.1 == q.1) = false := by
          rw [beq_eq_false_iff_ne]
          exact fun heq => hq (List.mem_map.2 ⟨p, hp, heq⟩)
        rw [List.lookup_cons, hne]
        exact ih hnames hp
  rw [ofMember, hkey, Option.bind_some, hlookup, Option.getD_some]

theorem ofMember_of_notMem {fields : List (String × Layout)} {name : String} (h : name ∉ fields.map (·.1)) {key : Bytes}
    (hkey : Json.decodeText? key = some name) : ofMember fields key = .scalar := by
  have hlookup : fields.lookup name = none := by
    refine List.lookup_eq_none_iff.2 fun p hp => ?_
    rw [bne_iff_ne]
    exact fun heq => h (heq ▸ List.mem_map_of_mem hp)
  rw [ofMember, hkey, Option.bind_some, hlookup, Option.getD_none]

end Layout

namespace Layout.Nulled
variable {l : Layout} {refused : Bool} {before after : Json}

/-- There is a text of the changed value. -/
theorem wellFormed (h : l.Nulled refused before after) (hbefore : before.WellFormed) : after.WellFormed := by
  induction h with
  | same => exact hbefore
  | emptyList | emptyMap => exact .null
  | list _ _ ih =>
    have hitems := hbefore.items
    rw [List.forall_mem_map] at hitems
    exact .array (List.forall_mem_map.2 fun c hc => ih c hc (hitems c hc))
  | @items fields changes hlength _ ih =>
    have hitems := hbefore.items
    rw [List.forall_mem_map] at hitems
    refine .array (List.forall_mem_map.2 fun c hc => ?_)
    rw [← List.map_fst_zip hlength] at hc
    obtain ⟨p, hp, rfl⟩ := List.mem_map.1 hc
    exact ih p hp (hitems p.1 (List.of_mem_zip hp).1)
  | map _ _ ih | members _ ih =>
    obtain ⟨hkeys, hvalues⟩ := hbefore.members
    rw [List.forall_mem_map] at hkeys hvalues
    exact .object (List.forall_mem_map.2 hkeys) (List.forall_mem_map.2 fun c hc => ih c hc (hvalues c hc))
  | calls _ ih => exact ih hbefore

/-- A record is never replaced itself. -/
theorem eq_of_record {fields : List (String × Layout)} (h : (Layout.record fields).Nulled refused before after)
    (hnull : before = .null ∨ after = .null) : refused = false ∧ after = before := by
  cases h with
  | same => exact ⟨rfl, rfl⟩
  | members | items => exact absurd hnull (by simp)

theorem eq_of_calls (h : Layout.calls.Nulled refused before after) (hnull : before = .null ∨ after = .null) :
    refused = false ∧ after = before := by
  cases h with
  | same => exact ⟨rfl, rfl⟩
  | calls h => exact eq_of_record h hnull

end Layout.Nulled

/-! ### Reading a changed value -/

section
variable {α β γ : Type} {refused : β → Bool} {xs : List β}

theorem mapM_changed {f g : β → Option γ} {vs : List γ}
    (h : ∀ x ∈ xs, ∀ v, f x = some v → g x = if refused x then none else some v) (hvs : xs.mapM f = some vs) :
    xs.mapM g = if xs.any refused then none else some vs := by
  induction xs generalizing vs with
  | nil => exact hvs
  | cons x xs ih =>
    obtain ⟨hx, hxs⟩ := List.forall_mem_cons.1 h
    rw [List.mapM_cons] at hvs ⊢
    obtain ⟨v, hv, hvs⟩ := Option.bind_eq_some_iff.1 hvs
    obtain ⟨vs', hvs', hvs⟩ := Option.bind_eq_some_iff.1 hvs
    cases hvs
    rw [hx v hv, ih hxs hvs', List.any_cons]
    cases refused x <;> cases xs.any refused <;> rfl

theorem foldlM_changed {β : Type u} {refused : β → Bool} {xs : List β} {f g : α → β → Option α} {s t : α}
    (h : ∀ x ∈ xs, ∀ s t, f s x = some t → g s x = if refused x then none else some t) (ht : xs.foldlM f s = some t) :
    xs.foldlM g s = if xs.any refused then none else some t := by
  induction xs generalizing s with
  | nil => exact ht
  | cons x xs ih =>
    obtain ⟨hx, hxs⟩ := List.forall_mem_cons.1 h
    rw [List.foldlM_cons] at ht ⊢
    obtain ⟨u, hu, ht⟩ := Option.bind_eq_some_iff.1 ht
    have hrest := ih hxs ht
    rw [hx s u hu, List.any_cons]
    cases refused x with
    | true => rfl
    | false => exact hrest

end

/-! ### Changed members -/

namespace Layout

/-- The changes by the texts that their keys stand for. -/
def named? (changes : List (Bytes × Change)) : Option (List (String × Change)) :=
  changes.mapM fun c => (Json.decodeText? c.1).map (·, c.2)

theorem namedMembers?_changes (side : Change → Json) (changes : List (Bytes × Change)) :
    Json.namedMembers? (changes.map fun c => (c.1, side c.2)) =
      (named? changes).map (·.map fun c => (c.1, side c.2)) := by
  unfold Json.namedMembers? named?
  induction changes with
  | nil => rfl
  | cons c changes ih =>
    rw [List.map_cons, List.mapM_cons, List.mapM_cons, ih]
    dsimp only
    cases Json.decodeText? c.1 with
    | none => rfl
    | some name => cases changes.mapM fun c => (Json.decodeText? c.1).map (·, c.2) <;> rfl

theorem mem_of_named? {changes : List (Bytes × Change)} {named : List (String × Change)}
    (h : named? changes = some named) : (∀ n ∈ named, ∃ key, (key, n.2) ∈ changes ∧ Json.decodeText? key = some n.1) ∧
      named.any (·.2.refused) = changes.any (·.2.refused) := by
  induction changes generalizing named with
  | nil => cases h; exact ⟨nofun, rfl⟩
  | cons c changes ih =>
    unfold named? at h
    rw [List.mapM_cons] at h
    obtain ⟨n, hn, h⟩ := Option.bind_eq_some_iff.1 h
    obtain ⟨named', hnamed, h⟩ := Option.bind_eq_some_iff.1 h
    cases h
    obtain ⟨name, hname, rfl⟩ := Option.map_eq_some_iff.1 hn
    obtain ⟨hmem, hany⟩ := ih hnamed
    refine ⟨List.forall_mem_cons.2 ⟨⟨c.1, List.mem_cons_self, hname⟩, fun n hn => ?_⟩, ?_⟩
    · obtain ⟨key, hkey, hname⟩ := hmem n hn
      exact ⟨key, List.mem_cons_of_mem c hkey, hname⟩
    · rw [List.any_cons, List.any_cons, hany]

end Layout

/-- The value has the layout: it is read as before after empty lists and maps that take `null` were replaced by it, and
not at all after others were. No list or map counts as a scalar. -/
structure Codec.HasLayout {α : Type} (c : Codec α) (l : Layout) : Prop where
  read_nulled : ∀ {depth refused before after a}, l.Nulled refused before after → c.read depth before = some a →
    c.read depth after = if refused then none else some a
  scalar : l = .scalar → ∀ depth, (∀ items, c.read depth (.array items) = none) ∧
    ∀ members, c.read depth (.object members) = none

namespace Codec.HasLayout
variable {α : Type} {c : Codec α} {l : Layout}

theorem of_scalar (h : ∀ depth, (∀ items, c.read depth (.array items) = none) ∧
    ∀ members, c.read depth (.object members) = none) : c.HasLayout .scalar := by
  refine ⟨fun hnulled hread => ?_, fun _ => h⟩
  obtain ⟨rfl, rfl⟩ := Layout.eq_of_nulled_scalar hnulled
  exact hread

theorem bool : Codec.bool.HasLayout .scalar := of_scalar fun _ => ⟨fun _ => rfl, fun _ => rfl⟩

theorem text : Codec.text.HasLayout .scalar := of_scalar fun _ => ⟨fun _ => rfl, fun _ => rfl⟩

theorem integer {low high : Int} {ofInt : Int → α} {toInt : α → Int} :
    (Codec.integer low high ofInt toInt).HasLayout .scalar := of_scalar fun _ => ⟨fun _ => rfl, fun _ => rfl⟩

theorem double : Codec.double.HasLayout .scalar := of_scalar fun _ => ⟨fun _ => rfl, fun _ => rfl⟩

theorem timestamp : Timestamp.codec.HasLayout .scalar := of_scalar fun _ => ⟨fun _ => rfl, fun _ => rfl⟩

/-- What is never `null` itself may be left out by `null`. -/
theorem option (h : c.HasLayout l) (hnull : ∀ {refused before after}, l.Nulled refused before after →
    before = .null ∨ after = .null → refused = false ∧ after = before) : c.option.HasLayout l := by
  refine ⟨fun {depth refused before after o} hnulled ho => ?_, fun hl depth => ?_⟩
  · by_cases hsame : before = .null ∨ after = .null
    · obtain ⟨rfl, rfl⟩ := hnull hnulled hsame
      exact ho
    · obtain ⟨hbefore, hafter⟩ := not_or.1 hsame
      rw [Codec.read_option hbefore] at ho
      obtain ⟨a, ha, rfl⟩ := Option.map_eq_some_iff.1 ho
      rw [Codec.read_option hafter, h.read_nulled hnulled ha]
      split <;> rfl
  · obtain ⟨hitems, hmembers⟩ := h.scalar hl depth
    exact ⟨fun items => (Codec.read_option (j := .array items) nofun).trans (by rw [hitems]; rfl),
      fun members => (Codec.read_option (j := .object members) nofun).trans (by rw [hmembers]; rfl)⟩

theorem list (h : c.HasLayout l) : c.list.HasLayout (.list false l) := by
  refine ⟨fun {depth refused before after as} hnulled hread => ?_, nofun⟩
  cases hnulled with
  | same => exact hread
  | emptyList => cases depth <;> rfl
  | list _ hchanges =>
    cases depth with
    | zero => cases hread
    | succ depth =>
      have hread : (_ : List Json).mapM (c.read depth) = some as := hread
      rw [List.mapM_map] at hread
      show (_ : List Json).mapM (c.read depth) = _
      rw [List.mapM_map]
      exact mapM_changed (fun x hx a => h.read_nulled (hchanges x hx)) hread

theorem keyMap (h : c.HasLayout l) : c.keyMap.HasLayout (.map false l) := by
  refine ⟨fun {depth refused before after m} hnulled hread => ?_, nofun⟩
  cases hnulled with
  | same => exact hread
  | emptyMap => cases depth <;> rfl
  | @map _ _ changes hchanges =>
    cases depth with
    | zero => cases hread
    | succ depth =>
      have hvalues : ∀ side : Layout.Change → Json,
          c.keyMap.read (depth + 1) (.object (changes.map fun c => (c.1, side c.2))) =
            (Layout.named? changes).bind fun named =>
              (named.mapM fun n => (c.read depth (side n.2)).map (n.1, ·)).map KeyMap.ofList := by
        intro side
        show (Json.namedMembers? _).bind _ = _
        rw [Layout.namedMembers?_changes, Option.bind_map]
        refine Option.bind_congr fun named _ => ?_
        show Option.bind (List.mapM _ _) _ = _
        rw [List.mapM_map]
        simp only [Option.map_eq_bind]
        rfl
      rw [hvalues] at hread ⊢
      obtain ⟨named, hnamed, hread⟩ := Option.bind_eq_some_iff.1 hread
      obtain ⟨es, hes, rfl⟩ := Option.map_eq_some_iff.1 hread
      obtain ⟨hmem, hany⟩ := Layout.mem_of_named? hnamed
      have hafter : named.mapM (fun n => (c.read depth n.2.after).map (n.1, ·)) =
          if named.any (·.2.refused) then none else some es := by
        refine mapM_changed (fun n hn e he => ?_) hes
        obtain ⟨v, hv, rfl⟩ := Option.map_eq_some_iff.1 he
        obtain ⟨key, hkey, -⟩ := hmem n hn
        rw [h.read_nulled (hchanges _ hkey) hv]
        split <;> rfl
      rw [hnamed, Option.bind_some, hafter, hany]
      split <;> rfl

theorem listOrDefault (h : c.HasLayout l) : c.list.orDefault.HasLayout (.list true l) := by
  refine ⟨fun {depth refused before after as} hnulled hread => ?_, nofun⟩
  cases hnulled with
  | same => exact hread
  | emptyList =>
    cases depth with
    | zero => cases hread
    | succ depth => exact hread
  | list _ hchanges => exact h.list.read_nulled (.list false hchanges) hread

theorem keyMapOrDefault (h : c.HasLayout l) : c.keyMap.orDefault.HasLayout (.map true l) := by
  refine ⟨fun {depth refused before after as} hnulled hread => ?_, nofun⟩
  cases hnulled with
  | same => exact hread
  | emptyMap =>
    cases depth with
    | zero => cases hread
    | succ depth => exact hread
  | map _ hchanges => exact h.keyMap.read_nulled (.map false hchanges) hread

end Codec.HasLayout

/-! ### Records -/

/-- The field is named and laid out as in the layout of its record. -/
def Field.HasLayout {σ : Type} (f : Field σ) (p : String × Layout) : Prop := f.name = p.1 ∧ f.codec.HasLayout p.2

namespace Record
variable {σ : Type} {r : Record σ} {fs : List (Field σ)} {fields : List (String × Layout)}

theorem map_name_eq (h : List.Forall₂ Field.HasLayout fs fields) : fs.map (·.name) = fields.map (·.1) := by
  induction h with
  | nil => rfl
  | cons hf _ ih => rw [List.map_cons, List.map_cons, ih, hf.1]

theorem exists_layout_of_mem (h : List.Forall₂ Field.HasLayout fs fields) {f : Field σ} (hf : f ∈ fs) :
    ∃ p ∈ fields, f.HasLayout p := by
  induction h with
  | nil => cases hf
  | cons hg _ ih =>
    rcases List.mem_cons.1 hf with rfl | hf
    · exact ⟨_, List.mem_cons_self, hg⟩
    · obtain ⟨p, hp, hfp⟩ := ih hf
      exact ⟨p, List.mem_cons_of_mem _ hp, hfp⟩

theorem readItems_nulled (h : List.Forall₂ Field.HasLayout fs fields) {changes : List Layout.Change}
    (hchanges : ∀ p ∈ changes.zip fields, p.2.2.Nulled p.1.refused p.1.before p.1.after) {depth : Nat} {s t : σ}
    (ht : readItems depth fs (changes.map (·.before)) s = some t) :
    readItems depth fs (changes.map (·.after)) s = if changes.any (·.refused) then none else some t := by
  induction changes generalizing fs fields s with
  | nil => exact ht
  | cons c changes ih =>
    cases h with
    | nil => cases ht
    | @cons f p fs fields hf hfs =>
      rw [List.zip_cons_cons, List.forall_mem_cons] at hchanges
      obtain ⟨u, hu, ht⟩ := Option.bind_eq_some_iff.1 ht
      obtain ⟨v, hv, rfl⟩ := Option.map_eq_some_iff.1 hu
      have hread := hf.2.read_nulled hchanges.1 hv
      have hrest := ih hfs hchanges.2 ht
      rw [List.map_cons, readItems, Field.read, hread, List.any_cons]
      cases c.refused with
      | true => rfl
      | false => exact hrest

/-- Of the changed members, those that are held in a field are read into it, the others are as they were. -/
theorem readMembers_nulled {named : List (String × Layout.Change)}
    (hfield : ∀ f ∈ fs, ∀ n ∈ named, n.1 = f.name → ∀ {depth a},
      f.codec.read depth n.2.before = some a → f.codec.read depth n.2.after = if n.2.refused then none else some a)
    (hother : ∀ n ∈ named, n.1 ∉ fs.map (·.name) → n.2.refused = false) {depth : Nat} {s t : σ}
    (ht : readMembers fs depth (named.map fun n => (n.1, n.2.before)) s = some t) :
    readMembers fs depth (named.map fun n => (n.1, n.2.after)) s =
      if named.any (·.2.refused) then none else some t := by
  have hfilter : ∀ (side : Layout.Change → Json) (f : Field σ),
      (named.map fun n => (n.1, side n.2)).filter (·.1 == f.name) =
        (named.filter (·.1 == f.name)).map fun n => (n.1, side n.2) := fun _ _ => List.filter_map
  have hany : fs.any (fun f => (named.filter (·.1 == f.name)).any (·.2.refused)) = named.any (·.2.refused) := by
    rw [Bool.eq_iff_iff, List.any_eq_true, List.any_eq_true]
    constructor
    · rintro ⟨f, -, hf⟩
      obtain ⟨n, hn, hrefused⟩ := List.any_eq_true.1 hf
      exact ⟨n, List.mem_of_mem_filter hn, hrefused⟩
    · rintro ⟨n, hn, hrefused⟩
      have hname : n.1 ∈ fs.map (·.name) := by
        by_contra hname
        exact Bool.false_ne_true ((hother n hn hname).symm.trans hrefused)
      obtain ⟨f, hf, hname⟩ := List.mem_map.1 hname
      exact ⟨f, hf, List.any_eq_true.2 ⟨n, List.mem_filter.2 ⟨hn, beq_iff_eq.2 hname.symm⟩, hrefused⟩⟩
  unfold readMembers at ht ⊢
  rw [← hany]
  refine foldlM_changed (fun f hf s t hst => ?_) ht
  rw [hfilter] at hst ⊢
  have hmem : ∀ n ∈ named.filter (·.1 == f.name), n ∈ named ∧ n.1 = f.name := fun n hn =>
    ⟨List.mem_of_mem_filter hn, beq_iff_eq.1 (List.mem_filter.1 hn).2⟩
  match hnamed : named.filter (·.1 == f.name) with
  | [] =>
    rw [hnamed] at hst ⊢
    exact hst
  | [n] =>
    rw [hnamed] at hst hmem ⊢
    obtain ⟨hn, hname⟩ := hmem n List.mem_cons_self
    obtain ⟨v, hv, rfl⟩ := Option.map_eq_some_iff.1 hst
    have hread := hfield f hf n hn hname hv
    simp only [List.map_cons, List.map_nil, Field.read, hread, List.any_cons, List.any_nil, Bool.or_false]
    split <;> rfl
  | _ :: _ :: _ => rw [hnamed] at hst; cases hst

/-- The rest that a flattened record checks is not changed. -/
theorem restIsReadable_changed {named : List (String × Layout.Change)}
    (hother : ∀ n ∈ named, n.1 ∉ fs.map (·.name) → n.2.after = n.2.before) (depth : Nat) :
    restIsReadable fs depth (named.map fun n => (n.1, n.2.after)) =
      restIsReadable fs depth (named.map fun n => (n.1, n.2.before)) := by
  rw [Bool.eq_iff_iff, restIsReadable, restIsReadable, List.all_eq_true, List.all_eq_true, List.forall_mem_map,
    List.forall_mem_map]
  refine forall₂_congr fun n hn => ?_
  by_cases hname : n.1 ∈ fs.map (·.name)
  · obtain ⟨f, hf, hname⟩ := List.mem_map.1 hname
    have hheld : fs.any (·.name == n.1) = true := List.any_eq_true.2 ⟨f, hf, beq_iff_eq.2 hname⟩
    simp only [hheld, Bool.true_or]
  · rw [hother n hn hname]

theorem read_members_nulled (hnames : (fields.map (·.1)).Nodup) (h : List.Forall₂ Field.HasLayout r.fields fields)
    {changes : List (Bytes × Layout.Change)}
    (hchanges : ∀ c ∈ changes, (Layout.ofMember fields c.1).Nulled c.2.refused c.2.before c.2.after) {depth : Nat} {s : σ}
    (hread : r.codec.read (depth + 1) (.object (changes.map fun c => (c.1, c.2.before))) = some s) :
    r.codec.read (depth + 1) (.object (changes.map fun c => (c.1, c.2.after))) =
      if changes.any (·.2.refused) then none else some s := by
  have hmembers : ∀ side : Layout.Change → Json, r.codec.read (depth + 1)
      (.object (changes.map fun c => (c.1, side c.2))) = (Layout.named? changes).bind fun named =>
        if r.isFlattened && !restIsReadable r.fields depth (named.map fun n => (n.1, side n.2)) then none
        else readMembers r.fields depth (named.map fun n => (n.1, side n.2)) r.default := by
    intro side
    show (Json.namedMembers? _).bind _ = _
    rw [Layout.namedMembers?_changes, Option.bind_map]
    rfl
  rw [hmembers] at hread ⊢
  obtain ⟨named, hnamed, hread⟩ := Option.bind_eq_some_iff.1 hread
  obtain ⟨hmem, hany⟩ := Layout.mem_of_named? hnamed
  have hother : ∀ n ∈ named, n.1 ∉ r.fields.map (·.name) → n.2.refused = false ∧ n.2.after = n.2.before := by
    intro n hn hname
    obtain ⟨key, hkey, hdecode⟩ := hmem n hn
    have hchange := hchanges _ hkey
    rw [Layout.ofMember_of_notMem (map_name_eq h ▸ hname) hdecode] at hchange
    exact Layout.eq_of_nulled_scalar hchange
  have hfield : ∀ f ∈ r.fields, ∀ n ∈ named, n.1 = f.name → ∀ {depth a},
      f.codec.read depth n.2.before = some a →
        f.codec.read depth n.2.after = if n.2.refused then none else some a := by
    intro f hf n hn hname depth a ha
    obtain ⟨p, hp, hfp⟩ := exists_layout_of_mem h hf
    obtain ⟨key, hkey, hdecode⟩ := hmem n hn
    have hchange := hchanges _ hkey
    rw [Layout.ofMember_of_mem hnames hp (by rw [hdecode, hname, hfp.1])] at hchange
    exact hfp.2.read_nulled hchange ha
  rw [hnamed, Option.bind_some, restIsReadable_changed (fun n hn hname => (hother n hn hname).2), ← hany]
  split at hread
  · cases hread
  next hplain =>
    rw [if_neg hplain]
    exact readMembers_nulled hfield (fun n hn hname => (hother n hn hname).1) hread

theorem hasLayout (hnames : (fields.map (·.1)).Nodup) (h : List.Forall₂ Field.HasLayout r.fields fields) :
    r.codec.HasLayout (.record fields) := by
  refine ⟨fun {depth refused before after s} hnulled hread => ?_, nofun⟩
  cases hnulled with
  | same => exact hread
  | items _ hchanges =>
    cases depth with
    | zero => cases hread
    | succ depth =>
      have hread : (if r.isFlattened then none else readItems depth r.fields _ r.default) = some s := hread
      show (if r.isFlattened then none else readItems depth r.fields _ r.default) = _
      split at hread
      · cases hread
      next hplain =>
        rw [if_neg hplain]
        exact readItems_nulled h hchanges hread
  | members hchanges =>
    cases depth with
    | zero => cases hread
    | succ depth => exact read_members_nulled hnames h hchanges hread

/-- The scalar fields of a record that is part of another one. -/
theorem forall₂_within {ρ : Type} {get : ρ → σ} {set : σ → ρ → ρ} (h : ∀ f ∈ fs, f.codec.HasLayout .scalar) :
    List.Forall₂ Field.HasLayout (fs.map (.within get set)) (fs.map fun f => (f.name, .scalar)) := by
  rw [List.forall₂_map_left_iff, List.forall₂_map_right_iff, List.forall₂_same]
  exact fun f hf => ⟨rfl, h f hf⟩

theorem hasLayout_flat (hnames : (r.fields.map (·.name)).Nodup) (h : ∀ f ∈ r.fields, f.codec.HasLayout .scalar) :
    r.codec.HasLayout r.flatLayout := by
  refine hasLayout (by rwa [List.map_map]) ?_
  rw [List.forall₂_map_right_iff, List.forall₂_same]
  exact fun f hf => ⟨rfl, h f hf⟩

end Record

/-! ### Trees of calls -/

namespace RpcMetrics

theorem codecWithin_hasLayout (height : Nat) : (codecWithin height).HasLayout .calls := by
  induction height with
  | zero => exact ⟨fun _ hread => absurd hread nofun, nofun⟩
  | succ height ih =>
    have hnode : (codecWithin (height + 1)).HasLayout Layout.callsNode := by
      refine Record.hasLayout (by decide) (List.rel_append (Record.forall₂_within ?_)
        (.cons ⟨rfl, .keyMapOrDefault ih⟩ <| .cons ⟨rfl, .keyMapOrDefault ih⟩ .nil))
      simp only [RpcCounters.fields, List.forall_mem_cons]
      exact ⟨.timestamp, .integer, .integer, .integer, .integer, .integer, .integer, .integer, .integer, .integer,
        .integer, .timestamp, .double, .double, .timestamp, nofun⟩
    refine ⟨fun hnulled hread => ?_, nofun⟩
    cases hnulled with
    | same => exact hread
    | calls h => exact hnode.read_nulled h hread

theorem hasLayout : codec.HasLayout .calls := ⟨fun {depth} => (codecWithin_hasLayout depth).read_nulled, nofun⟩

end RpcMetrics

end ClusterMetrics
