import ClusterMetrics.Node
import ClusterMetrics.Proofs.Json.FiniteDoubles
import ClusterMetrics.Proofs.KeyMap
import ClusterMetrics.Proofs.RpcTrees

/-! # Values that were read

What every field preserves when it is read holds of every record that is read (`Record.yields`). In this way no value
that is read holds a double that is no number: it is equal to itself (`IsNumeric`). -/

namespace ClusterMetrics
universe u

theorem forall_of_mapM {α β : Type} {P : β → Prop} {f : α → Option β} {l : List α} {bs : List β}
    (h : l.mapM f = some bs) (hf : ∀ a b, f a = some b → P b) : ∀ b ∈ bs, P b := by
  induction l generalizing bs with
  | nil => cases h; exact nofun
  | cons a l ih =>
    rw [List.mapM_cons] at h
    obtain ⟨b, hb, h⟩ := Option.bind_eq_some_iff.1 h
    obtain ⟨bs', hbs, h⟩ := Option.bind_eq_some_iff.1 h
    cases h
    exact List.forall_mem_cons.2 ⟨hf a b hb, ih hbs⟩

theorem forall_of_foldlM {α : Type u} {β : Type} {P : β → Prop} {g : β → α → Option β} {l : List α} {s t : β}
    (h : l.foldlM g s = some t) (hg : ∀ a ∈ l, ∀ s t, g s a = some t → P s → P t) (hs : P s) : P t := by
  induction l generalizing s with
  | nil => cases h; exact hs
  | cons a l ih =>
    obtain ⟨ha, hl⟩ := List.forall_mem_cons.1 hg
    rw [List.foldlM_cons] at h
    obtain ⟨u, hu, ht⟩ := Option.bind_eq_some_iff.1 h
    exact ih ht hl (ha s u hu hs)

/-! ### Equal to itself -/

namespace NumEq
variable {α : Type} [NumEq α]

/-- Equal to itself: it holds no `nan`. -/
def IsNumeric (a : α) : Prop := numEq a a = true

theorem isNumeric_option {o : Option α} : IsNumeric o ↔ ∀ a ∈ o, IsNumeric a := by
  cases o with
  | none => simp [IsNumeric, numEq, option]
  | some a => simp [IsNumeric, numEq, option]

theorem isNumeric_list {l : List α} : IsNumeric l ↔ ∀ a ∈ l, IsNumeric a := by
  induction l with
  | nil => simp [IsNumeric, numEq, list]
  | cons a l ih => rw [List.forall_mem_cons, ← ih, IsNumeric, numEq]; simp [instList, list, IsNumeric, numEq]

theorem entries_self_iff {es : List (String × α)} : entries es es = true ↔ ∀ p ∈ es, IsNumeric p.2 := by
  induction es with
  | nil => simp [entries]
  | cons p es ih => rw [List.forall_mem_cons, ← ih, entries, beq_self_eq_true, Bool.true_and, Bool.and_eq_true]; rfl

theorem isNumeric_keyMap {m : KeyMap α} : IsNumeric m ↔ ∀ p ∈ m.entries, IsNumeric p.2 := entries_self_iff

end NumEq

/-! ### What codecs yield -/

/-- The value can be read from some input. -/
def Codec.Decodes {α : Type} (c : Codec α) (a : α) : Prop := ∃ bytes, c.decode? bytes = some a

/-- Every value that is read within so many containers satisfies `P`. -/
def Codec.YieldsAt {α : Type} (c : Codec α) (depth : Nat) (P : α → Prop) : Prop := ∀ ⦃j a⦄, c.read depth j = some a → P a

/-- Every value that is read satisfies `P`. -/
def Codec.Yields {α : Type} (c : Codec α) (P : α → Prop) : Prop := ∀ ⦃depth⦄, c.YieldsAt depth P

theorem KeyMap.forall_foldl_insert {α : Type} {P : α → Prop} {es : List (String × α)} {m : KeyMap α}
    (hm : ∀ p ∈ m.entries, P p.2) (h : ∀ p ∈ es, P p.2) :
    ∀ p ∈ (es.foldl (fun m e => m.insert e.1 e.2) m).entries, P p.2 := by
  induction es generalizing m with
  | nil => exact hm
  | cons e es ih =>
    obtain ⟨he, hes⟩ := List.forall_mem_cons.1 h
    refine ih (Entries.forall_of_alter? (entries_alter? (alter?_some m e.1 e.2)) hm ?_) hes
    intro old v _ hv
    cases hv
    exact he

theorem KeyMap.forall_ofList {α : Type} {P : α → Prop} {es : List (String × α)} (h : ∀ p ∈ es, P p.2) :
    ∀ p ∈ (KeyMap.ofList es).entries, P p.2 := forall_foldl_insert (m := .empty) nofun h

theorem KeyMap.forall_overwrite {α : Type} {P : α → Prop} {m n : KeyMap α} (hm : ∀ p ∈ m.entries, P p.2)
    (hn : ∀ p ∈ n.entries, P p.2) : ∀ p ∈ (m.overwrite n).entries, P p.2 := forall_foldl_insert hm hn

namespace Codec.YieldsAt
variable {α : Type} {c : Codec α} {depth : Nat} {P : α → Prop}

theorem keyMap (h : c.YieldsAt depth P) : c.keyMap.YieldsAt (depth + 1) fun m => ∀ p ∈ m.entries, P p.2 := by
  intro j m hm
  cases j with
  | object members =>
    obtain ⟨named, -, hm⟩ := Option.bind_eq_some_iff.1 hm
    obtain ⟨es, hes, hm⟩ := Option.bind_eq_some_iff.1 hm
    cases hm
    refine KeyMap.forall_ofList (forall_of_mapM hes ?_)
    rintro ⟨key, value⟩ p hp
    obtain ⟨a, ha, hp⟩ := Option.bind_eq_some_iff.1 hp
    cases hp
    exact h ha
  | _ => cases hm

theorem option (h : c.YieldsAt depth P) : c.option.YieldsAt depth fun o => ∀ a ∈ o, P a := by
  intro j o ho
  cases j with
  | null => cases depth <;> cases ho <;> exact nofun
  | _ =>
    obtain ⟨a, ha, rfl⟩ := Option.map_eq_some_iff.1 ho
    rintro _ ⟨⟩
    exact h ha

theorem orDefault [Inhabited α] (h : c.YieldsAt depth P) (hdefault : P default) : c.orDefault.YieldsAt depth P := by
  intro j a ha
  cases j with
  | null => cases ha; exact hdefault
  | _ => exact h ha

end Codec.YieldsAt

namespace Codec.Yields
variable {α : Type} {c : Codec α} {P Q : α → Prop}

theorem of_decodes (h : c.Yields P) {a : α} (ha : c.Decodes a) : P a := by
  obtain ⟨bytes, hbytes⟩ := ha
  obtain ⟨j, -, hj⟩ := Option.bind_eq_some_iff.1 hbytes
  exact h hj

theorem anything (c : Codec α) : c.Yields fun _ => True := fun _ _ _ _ => trivial

theorem double : Codec.double.Yields NumEq.IsNumeric := fun _ _ _ h => Json.numEq_self_double? h

theorem list (h : c.Yields P) : c.list.Yields fun as => ∀ a ∈ as, P a := by
  intro depth j as has
  cases j with
  | array items =>
    cases depth with
    | zero => cases has
    | succ depth => exact forall_of_mapM has fun _ _ hj => h hj
  | _ => cases depth <;> cases has

theorem keyMap (h : c.Yields P) : c.keyMap.Yields fun m => ∀ p ∈ m.entries, P p.2 := by
  intro depth
  cases depth with
  | zero => exact nofun
  | succ depth => exact .keyMap (@h depth)

theorem option (h : c.Yields P) : c.option.Yields fun o => ∀ a ∈ o, P a := fun _ => .option (@h _)

theorem orDefault [Inhabited α] (h : c.Yields P) (hdefault : P default) : c.orDefault.Yields P := fun _ =>
  .orDefault (@h _) hdefault

end Codec.Yields

/-! ### Records -/

/-- Reading the field within so many containers keeps `P`. -/
def Field.PreservesAt {σ : Type} (f : Field σ) (depth : Nat) (P : σ → Prop) : Prop :=
  ∀ ⦃j s t⦄, f.read depth j s = some t → P s → P t

/-- Reading the field keeps `P`. -/
def Field.Preserves {σ : Type} (f : Field σ) (P : σ → Prop) : Prop := ∀ ⦃depth⦄, f.PreservesAt depth P

section
variable {σ ρ : Type} {f : Field σ} {fields : List (Field σ)} {P : σ → Prop}

theorem Field.preservesAt {τ : Type} {name : String} {codec : Codec τ} {isOmitted : τ → Bool} {get : σ → τ}
    {set : τ → σ → σ} {depth : Nat} {Q : τ → Prop} (h : codec.YieldsAt depth Q)
    (hset : ∀ v s, Q v → P s → P (set v s)) : (omittable name codec isOmitted get set).PreservesAt depth P := by
  intro j s t ht hs
  obtain ⟨v, hv, rfl⟩ := Option.map_eq_some_iff.1 ht
  exact hset v s (h hv) hs

theorem Field.preserves {τ : Type} {name : String} {codec : Codec τ} {isOmitted : τ → Bool} {get : σ → τ}
    {set : τ → σ → σ} {Q : τ → Prop} (h : codec.Yields Q) (hset : ∀ v s, Q v → P s → P (set v s)) :
    (omittable name codec isOmitted get set).Preserves P := fun _ => preservesAt (@h _) hset

/-- A field of which nothing is asked. -/
theorem Field.preservesAt_of_set {τ : Type} {name : String} {codec : Codec τ} {isOmitted : τ → Bool} {get : σ → τ}
    {set : τ → σ → σ} {depth : Nat} (hset : ∀ v s, P s → P (set v s)) :
    (omittable name codec isOmitted get set).PreservesAt depth P :=
  preservesAt (@Codec.Yields.anything _ codec depth) fun v s _ => hset v s

theorem Field.preserves_of_set {τ : Type} {name : String} {codec : Codec τ} {isOmitted : τ → Bool} {get : σ → τ}
    {set : τ → σ → σ} (hset : ∀ v s, P s → P (set v s)) : (omittable name codec isOmitted get set).Preserves P :=
  fun _ => preservesAt_of_set hset

theorem Field.of_missing {s t : σ} (h : f.missing s = some t) : t = s := by
  unfold missing at h
  split at h <;> cases h
  rfl

theorem Record.readMembers_preserves {depth : Nat} (h : ∀ f ∈ fields, f.PreservesAt depth P)
    {members : List (String × Json)} {s t : σ} (ht : readMembers fields depth members s = some t) (hs : P s) : P t := by
  refine forall_of_foldlM ht (fun f hf s t hst hs => ?_) hs
  split at hst
  · exact Field.of_missing hst ▸ hs
  · exact h f hf hst hs
  · cases hst

theorem Record.readItems_preserves {depth : Nat} (h : ∀ f ∈ fields, f.PreservesAt depth P) {items : List Json} {s t : σ}
    (ht : readItems depth fields items s = some t) (hs : P s) : P t := by
  induction items generalizing fields s with
  | nil =>
    unfold readItems at ht
    exact forall_of_foldlM ht (fun f _ s t hst hs => Field.of_missing hst ▸ hs) hs
  | cons item items ih =>
    cases fields with
    | nil => cases ht
    | cons f fields =>
      obtain ⟨hf, hfields⟩ := List.forall_mem_cons.1 h
      obtain ⟨u, hu, ht⟩ := Option.bind_eq_some_iff.1 ht
      exact ih hfields ht (hf hu hs)

theorem Record.yieldsAt {r : Record σ} {depth : Nat} (hdefault : P r.default)
    (h : ∀ f ∈ r.fields, f.PreservesAt depth P) : r.codec.YieldsAt (depth + 1) P := by
  intro j s hs
  cases j with
  | object members =>
    obtain ⟨named, -, hs⟩ := Option.bind_eq_some_iff.1 hs
    split at hs
    · cases hs
    · exact readMembers_preserves h hs hdefault
  | array items =>
    have hs : (if r.isFlattened then none else readItems depth r.fields items r.default) = some s := hs
    split at hs
    · cases hs
    · exact readItems_preserves h hs hdefault
  | _ => cases hs

theorem Record.yields {r : Record σ} (hdefault : P r.default) (h : ∀ f ∈ r.fields, f.Preserves P) :
    r.codec.Yields P := by
  intro depth
  cases depth with
  | zero =>
    intro j s hs
    cases j <;> cases hs
  | succ depth => exact yieldsAt hdefault fun f hf => @h f hf depth

end

/-! ### Metrics with doubles -/

open NumEq (IsNumeric)

theorem CpuTimes.yields_isNumeric : CpuTimes.codec.Yields IsNumeric := by
  refine Record.yields rfl ?_
  simp only [record, List.forall_mem_cons]
  refine ⟨Field.preserves_of_set ?_, ?_⟩
  · intro v t ht
    simp_all [IsNumeric, NumEq.numEq, numEq]
  iterate 10
    refine ⟨Field.preserves .double fun v t hv ht => ?_, ?_⟩
    · change Binary64.numEq v v = true at hv
      simp_all [IsNumeric, NumEq.numEq, numEq]
  exact nofun

theorem LoadAverages.yields_isNumeric : LoadAverages.codec.Yields IsNumeric := by
  refine Record.yields rfl ?_
  simp only [record, List.forall_mem_cons]
  iterate 3
    refine ⟨Field.preserves .double fun v l hv hl => ?_, ?_⟩
    · change Binary64.numEq v v = true at hv
      simp_all [IsNumeric, NumEq.numEq, numEq]
  exact nofun

namespace CpuMetrics

theorem isNumeric_iff {m : CpuMetrics} : IsNumeric m ↔ IsNumeric m.times ∧ IsNumeric m.load := by
  simp [IsNumeric, NumEq.numEq, numEq]

theorem yields_isNumeric : CpuMetrics.codec.Yields IsNumeric := by
  have htimes := CpuTimes.yields_isNumeric.option
  have hload := LoadAverages.yields_isNumeric.option
  refine Record.yields rfl ?_
  simp only [record, List.forall_mem_cons]
  refine ⟨Field.preserves_of_set ?_, Field.preserves htimes ?_, Field.preserves hload ?_, Field.preserves_of_set ?_, nofun⟩
  · intro v m hm
    have hm := isNumeric_iff.1 hm
    exact isNumeric_iff.2 hm
  · exact fun v m hv hm => isNumeric_iff.2 ⟨NumEq.isNumeric_option.2 hv, (isNumeric_iff.1 hm).2⟩
  · exact fun v m hv hm => isNumeric_iff.2 ⟨(isNumeric_iff.1 hm).1, NumEq.isNumeric_option.2 hv⟩
  · intro v m hm
    have hm := isNumeric_iff.1 hm
    exact isNumeric_iff.2 hm

end CpuMetrics

namespace RpcMetrics

theorem peersNumEq_self_iff {ts : List (String × RpcTree)} :
    RpcTree.peersNumEq ts ts = true ↔ ∀ p ∈ ts, p.2.numEq p.2 = true := by
  induction ts with
  | nil => simp [RpcTree.peersNumEq]
  | cons p ts ih => simp [RpcTree.peersNumEq, ih]

theorem isNumeric_node {own : RpcCounters} {ds cs : KeyMap RpcMetrics} : IsNumeric (node own ds cs) ↔
    IsNumeric own ∧ (∀ p ∈ ds.entries, IsNumeric p.2) ∧ ∀ p ∈ cs.entries, IsNumeric p.2 := by
  have hpeers : ∀ ps : KeyMap RpcMetrics, RpcTree.peersNumEq (ps.mapValues tree).entries (ps.mapValues tree).entries ↔
      ∀ p ∈ ps.entries, IsNumeric p.2 := by
    intro ps
    rw [peersNumEq_self_iff]
    exact List.forall_mem_map
  rw [← hpeers, ← hpeers, ← and_assoc]
  exact (Bool.and_eq_true _ _).to_iff.trans (and_congr_left' (Bool.and_eq_true _ _).to_iff)

theorem isNumeric_iff {m : RpcMetrics} : IsNumeric m ↔
    IsNumeric m.own ∧ (∀ p ∈ m.byDestination.entries, IsNumeric p.2) ∧ ∀ p ∈ m.byCaller.entries, IsNumeric p.2 := by
  rw [← isNumeric_node, node_eta]

theorem preserves_own {f : Field RpcCounters} (hf : f ∈ RpcCounters.fields) : f.Preserves IsNumeric := by
  simp only [RpcCounters.fields, List.mem_cons, List.not_mem_nil, or_false] at hf
  obtain rfl | rfl | rfl | rfl | rfl | rfl | rfl | rfl | rfl | rfl | rfl | rfl | rfl | rfl | rfl := hf
  case inr.inr.inr.inr.inr.inr.inr.inr.inr.inr.inr.inr.inl =>
    refine Field.preserves .double fun v c hv hc => ?_
    change Binary64.numEq v v = true at hv
    simp_all [IsNumeric, NumEq.numEq, RpcCounters.numEq, RpcCounters.withoutPings]
  case inr.inr.inr.inr.inr.inr.inr.inr.inr.inr.inr.inr.inr.inl =>
    refine Field.preserves .double fun v c hv hc => ?_
    change Binary64.numEq v v = true at hv
    simp_all [IsNumeric, NumEq.numEq, RpcCounters.numEq, RpcCounters.withoutPings]
  all_goals
    refine Field.preserves_of_set fun v c hc => ?_
    simp_all [IsNumeric, NumEq.numEq, RpcCounters.numEq, RpcCounters.withoutPings]

theorem record_yields {peer : Codec RpcMetrics} (h : peer.Yields IsNumeric) : (record peer).codec.Yields IsNumeric := by
  have hmap := h.keyMap.orDefault nofun
  refine Record.yields rfl fun f hf => ?_
  rcases List.mem_append.1 hf with hf | hf
  · obtain ⟨g, hg, rfl⟩ := List.mem_map.1 hf
    intro depth j s t ht hs
    obtain ⟨v, hv, rfl⟩ := Option.map_eq_some_iff.1 ht
    have hread : g.read depth j s.own = some (g.set v s.own) := congrArg (Option.map (g.set · s.own)) hv
    have hs := isNumeric_iff.1 hs
    exact isNumeric_node.2 ⟨preserves_own hg hread hs.1, hs.2⟩
  · simp only [List.mem_cons, List.not_mem_nil, or_false] at hf
    obtain rfl | rfl := hf
    · refine Field.preserves hmap fun v s hv hs => ?_
      have hs := isNumeric_iff.1 hs
      exact isNumeric_node.2 ⟨hs.1, hv, hs.2.2⟩
    · refine Field.preserves hmap fun v s hv hs => ?_
      have hs := isNumeric_iff.1 hs
      exact isNumeric_node.2 ⟨hs.1, hs.2.1, hv⟩

theorem codecWithin_yields (height : Nat) : (codecWithin height).Yields IsNumeric := by
  induction height with
  | zero => exact nofun
  | succ height ih => exact record_yields ih

theorem yields_isNumeric : RpcMetrics.codec.Yields IsNumeric := fun depth _ _ h => codecWithin_yields depth h

end RpcMetrics

theorem Histogram.yields_isNumeric : Histogram.codec.Yields IsNumeric := by
  refine Record.yields rfl ?_
  simp only [record, List.forall_mem_cons]
  refine ⟨Field.preserves_of_set ?_, Field.preserves (Codec.Yields.double.list.orDefault nofun) ?_, nofun⟩
  · intro v h hh
    have hh : NumEq.numEq h.boundaries h.boundaries = true := by simpa [IsNumeric, NumEq.numEq, numEq] using hh
    simpa [IsNumeric, NumEq.numEq, numEq] using hh
  · intro v h hv _
    have hv : NumEq.numEq v v = true := NumEq.isNumeric_list.2 hv
    simpa [IsNumeric, NumEq.numEq, numEq] using hv

namespace RuntimeMetrics

theorem isNumeric_iff {m : RuntimeMetrics} : IsNumeric m ↔ IsNumeric m.doubles ∧ IsNumeric m.histograms := by
  simp [IsNumeric, NumEq.numEq, numEq]

theorem yields_isNumeric : RuntimeMetrics.codec.Yields IsNumeric := by
  have hdoubles := Codec.Yields.double.keyMap.orDefault nofun
  have hhistograms := Histogram.yields_isNumeric.keyMap.orDefault nofun
  refine Record.yields rfl ?_
  simp only [record, List.forall_mem_cons]
  refine ⟨Field.preserves_of_set ?_, Field.preserves hdoubles ?_, Field.preserves hhistograms ?_, Field.preserves_of_set ?_,
    nofun⟩
  · intro v m hm
    have hm := isNumeric_iff.1 hm
    exact isNumeric_iff.2 hm
  · exact fun v m hv hm => isNumeric_iff.2 ⟨NumEq.isNumeric_keyMap.2 hv, (isNumeric_iff.1 hm).2⟩
  · exact fun v m hv hm => isNumeric_iff.2 ⟨(isNumeric_iff.1 hm).1, NumEq.isNumeric_keyMap.2 hv⟩
  · intro v m hm
    have hm := isNumeric_iff.1 hm
    exact isNumeric_iff.2 hm

end RuntimeMetrics

namespace MetricBundle

theorem isNumeric_iff {m : MetricBundle} :
    IsNumeric m ↔ IsNumeric m.cpu ∧ IsNumeric m.rpc ∧ IsNumeric m.runtime := by
  simp [IsNumeric, NumEq.numEq, numEq, and_assoc]

theorem yields_isNumeric : MetricBundle.codec.Yields IsNumeric := by
  refine Record.yields rfl ?_
  simp only [record, List.forall_mem_cons]
  iterate 7
    refine ⟨Field.preserves_of_set ?_, ?_⟩
    · intro v m hm
      have hm := isNumeric_iff.1 hm
      exact isNumeric_iff.2 hm
  refine ⟨Field.preserves CpuMetrics.yields_isNumeric.option ?_, Field.preserves RpcMetrics.yields_isNumeric.option ?_,
    Field.preserves RuntimeMetrics.yields_isNumeric.option ?_, nofun⟩
  · exact fun v m hv hm => isNumeric_iff.2 ⟨NumEq.isNumeric_option.2 hv, (isNumeric_iff.1 hm).2⟩
  · intro v m hv hm
    have hm := isNumeric_iff.1 hm
    exact isNumeric_iff.2 ⟨hm.1, NumEq.isNumeric_option.2 hv, hm.2.2⟩
  · intro v m hv hm
    have hm := isNumeric_iff.1 hm
    exact isNumeric_iff.2 ⟨hm.1, hm.2.1, NumEq.isNumeric_option.2 hv⟩

end MetricBundle

end ClusterMetrics
