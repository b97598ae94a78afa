import ClusterMetrics.Proofs.ByteOrder
import ClusterMetrics.Proofs.Merge.Grouping

/-! # Views as they grow

A view takes in frames, replies of nodes and notes, in any order. Whatever was done to it, the frames that came into
it decide what it holds (`ClusterView.Reflects`), and a host is found in it just when one of them listed the host,
because hosts are kept in order and searched by halves (`Frame.hasHost_iff_mem`).

Main statement: this holds after every sequence of calls, a sequence succeeds unless a counter leaves its range, and
nodes that were not asked for leave no trace (`ClusterView.reflects_calls`). -/

namespace ClusterMetrics

/-! ### Searching by halves -/

namespace Frame
variable {f : Frame} {ts : List String} {target host : String} {base size i j : Nat}

theorem le_of_getElem? {s t : String} (hs : ts.Pairwise (· ≤ ·)) (hij : i ≤ j) (hi : ts[i]? = some s)
    (hj : ts[j]? = some t) : s ≤ t := by
  rcases Nat.lt_or_eq_of_le hij with hlt | rfl
  · obtain ⟨hilt, rfl⟩ := List.getElem?_eq_some_iff.1 hi
    obtain ⟨hjlt, rfl⟩ := List.getElem?_eq_some_iff.1 hj
    exact List.pairwise_iff_getElem.1 hs i j hilt hjlt hlt
  · rw [Option.some.inj (hi.symm.trans hj)]

/-- A text that is there at the beginning is not lost when half of the texts are left. -/
theorem getElem?_searchFrom (hs : ts.Pairwise (· ≤ ·)) (hsize : base + size ≤ ts.length) (hbase : base ≤ i)
    (hi : i < base + size) (htarget : ts[i]? = some target) :
    ts[searchFrom ts.toArray target base size]? = some target := by
  induction size using Nat.strongRecOn generalizing base i with
  | ind size ih =>
    rw [searchFrom]
    split
    case isFalse hsmall =>
      obtain rfl : i = base := by omega
      exact htarget
    case isTrue hlarge =>
      have hmiddle : base + size / 2 < ts.length := by omega
      have hget : ts[base + size / 2]? = some ts[base + size / 2] := List.getElem?_eq_getElem hmiddle
      dsimp only
      rw [Array.getD_eq_getD_getElem?, List.getElem?_toArray, hget, Option.getD_some]
      split
      case isTrue hlt =>
        have hbelow : i < base + size / 2 := by
          refine Nat.lt_of_not_le fun hle => ?_
          exact String.not_le.2 hlt (le_of_getElem? hs hle hget htarget)
        exact ih (size - size / 2) (by omega) (by omega) hbase (by omega) htarget
      case isFalse hnlt =>
        by_cases hbelow : i < base + size / 2
        · -- The text in the middle is neither greater nor less, so it is the target too.
          have hequal : ts[base + size / 2] = target :=
            String.le_antisymm (String.not_lt.1 hnlt) (le_of_getElem? hs hbelow.le htarget hget)
          exact ih (size - size / 2) (by omega) (by omega) (Nat.le_refl _) (by omega) (hequal ▸ hget)
        · exact ih (size - size / 2) (by omega) (by omega) (by omega) (by omega) htarget

theorem hasHost_iff_mem (hs : f.hosts.Pairwise (· ≤ ·)) : f.hasHost host = true ↔ host ∈ f.hosts := by
  rw [hasHost, beq_iff_eq, List.getElem?_toArray, List.size_toArray]
  refine ⟨List.mem_of_getElem?, fun h => ?_⟩
  obtain ⟨i, hi⟩ := List.mem_iff_getElem?.1 h
  have hlt : i < f.hosts.length := (List.getElem?_eq_some_iff.1 hi).1
  exact getElem?_searchFrom hs (by omega) (Nat.zero_le i) (by omega) hi

end Frame

/-! ### Calls -/

/-- What is done to a view. -/
inductive ViewCall where
  | absorb (f : Frame)
  | addNode (node : NodeReport) (request : Request)
  | recordError (source error : String)

namespace ViewCall

/-- The frame that the call brings into the view; none of a node that was not asked for. -/
def frame? : ViewCall → Option Frame
  | absorb f => some f
  | addNode node request => if request.wantsHost node.node.address then some (.ofNode node request) else none
  | recordError .. => none

/-- What the call adds to the errors of the view. -/
def errors : ViewCall → List String
  | absorb f => f.errors
  | addNode node request => if request.wantsHost node.node.address then (Frame.ofNode node request).errors else []
  | recordError source error => [s!"{source}: {error}"]

/-- Whether the call is about a node that was not asked for. -/
def isSkipped : ViewCall → Bool
  | addNode node request => !request.wantsHost node.node.address
  | _ => false

/-- The frames that some calls bring, in their order. -/
def frames (calls : List ViewCall) : List Frame := calls.filterMap frame?

variable {c : ViewCall} {f : Frame}

theorem frames_concat_of_none (calls : List ViewCall) (h : c.frame? = none) : frames (calls ++ [c]) = frames calls := by
  rw [frames, List.filterMap_append, List.filterMap_cons_none h, List.filterMap_nil, List.append_nil, frames]

theorem frames_concat_of_some (calls : List ViewCall) (h : c.frame? = some f) :
    frames (calls ++ [c]) = frames calls ++ [f] := by
  rw [frames, List.filterMap_append, List.filterMap_cons_some h, List.filterMap_nil, frames]

/-- A frame comes as it is, or from a node that was asked for. -/
theorem frame?_eq_some (h : c.frame? = some f) : c = .absorb f ∨
    ∃ node request, c = .addNode node request ∧ request.wantsHost node.node.address = true ∧
      f = .ofNode node request := by
  cases c with
  | absorb g => cases h; exact .inl rfl
  | addNode node request =>
    obtain ⟨hwanted, h⟩ := Option.ite_none_right_eq_some.1 h
    cases h
    exact .inr ⟨node, request, rfl, hwanted, rfl⟩
  | recordError source error => cases h

theorem errors_of_frame? (h : c.frame? = some f) : c.errors = f.errors := by
  rcases frame?_eq_some h with rfl | ⟨node, request, rfl, hwanted, rfl⟩
  · rfl
  · exact if_pos hwanted

end ViewCall

namespace KeyMap
variable {α : Type} {ms : List (KeyMap α)} {m : KeyMap α} {key : String}

/-- The value of the last map that has the key. -/
def lastValue? (ms : List (KeyMap α)) (key : String) : Option α := (ms.filterMap (·.get? key)).getLast?

theorem lastValue?_concat (ms : List (KeyMap α)) (m : KeyMap α) (key : String) :
    lastValue? (ms ++ [m]) key = (m.get? key).or (lastValue? ms key) := by
  rw [lastValue?, List.filterMap_append, List.getLast?_append, List.filterMap_cons]
  cases m.get? key <;> rfl

end KeyMap

namespace ClusterView
open ViewCall (frames)
variable {v w : ClusterView} {c : ViewCall} {calls : List ViewCall} {f : Frame}

def call? (v : ClusterView) : ViewCall → Option ClusterView
  | .absorb f => v.absorb? f
  | .addNode node request => v.addNode? node request
  | .recordError source error => some (v.recordError source error)

/-- What the calls make of a new view, unless a counter leaves its range. -/
def calls? (calls : List ViewCall) : Option ClusterView := calls.foldlM call? {}

/-! ### One call -/

theorem call?_of_frame? (h : c.frame? = some f) (v : ClusterView) : v.call? c = v.absorb? f := by
  rcases ViewCall.frame?_eq_some h with rfl | ⟨node, request, rfl, hwanted, rfl⟩
  · rfl
  · exact if_pos hwanted

/-- A call without a frame leaves all but the errors as it is. -/
theorem call?_of_frame?_eq_none (h : c.frame? = none) (v : ClusterView) :
    v.call? c = some { v with frame := { v.frame with errors := v.frame.errors ++ c.errors } } := by
  cases c with
  | absorb g => cases h
  | addNode node request =>
    have hunwanted : ¬ request.wantsHost node.node.address = true := by
      intro hwanted
      rw [ViewCall.frame?, if_pos hwanted] at h
      cases h
    rw [ViewCall.errors, if_neg hunwanted, List.append_nil]
    exact if_neg hunwanted
  | recordError source error => rfl

theorem call?_of_isSkipped (h : c.isSkipped = true) (v : ClusterView) : v.call? c = some v := by
  cases c with
  | addNode node request =>
    rw [ViewCall.isSkipped, Bool.not_eq_true'] at h
    rw [call?, addNode?, h, if_neg Bool.false_ne_true]
  | absorb g => cases h
  | recordError source error => cases h

theorem map_total_absorb? (v : ClusterView) (f : Frame) :
    (v.absorb? f).map (·.frame.total) = v.frame.total.merge? f.total := by
  rw [absorb?, Frame.merge?]
  cases v.frame.total.merge? f.total <;> rfl

/-! ### Any calls -/

/-- What the calls that led to a view say of it. -/
structure Reflects (calls : List ViewCall) (v : ClusterView) : Prop where
  ordered : v.frame.hosts.Pairwise (· ≤ ·)
  hosts : v.frame.hosts.Perm ((frames calls).flatMap Frame.hosts)
  errors : v.frame.errors = calls.flatMap ViewCall.errors
  byHost : ∀ host, v.frame.byHost.get? host = KeyMap.lastValue? ((frames calls).map Frame.byHost) host
  byDisk : ∀ disk, v.frame.byDisk.get? disk = KeyMap.lastValue? ((frames calls).map Frame.byDisk) disk
  isFinal : v.frame.isFinal = false
  merged : v.merged = (frames calls).length

theorem reflects_nil : Reflects [] {} where
  ordered := .nil
  hosts := .refl _
  errors := rfl
  byHost _ := rfl
  byDisk _ := rfl
  isFinal := rfl
  merged := rfl

theorem Reflects.call (hv : Reflects calls v) (h : v.call? c = some w) : Reflects (calls ++ [c]) w := by
  cases hf : c.frame? with
  | none =>
    rw [call?_of_frame?_eq_none hf] at h
    cases h
    have hframes := ViewCall.frames_concat_of_none calls hf
    exact {
      ordered := hv.ordered
      hosts := hframes ▸ hv.hosts
      errors := by rw [List.flatMap_append, List.flatMap_singleton, hv.errors]
      byHost := hframes ▸ hv.byHost
      byDisk := hframes ▸ hv.byDisk
      isFinal := hv.isFinal
      merged := hframes ▸ hv.merged }
  | some f =>
    rw [call?_of_frame? hf] at h
    obtain ⟨g, hg, rfl⟩ := Option.map_eq_some_iff.1 h
    have hframes := ViewCall.frames_concat_of_some calls hf
    have hhosts := Frame.hosts_merge? hg
    obtain ⟨herrors, hbyHost, hbyDisk, hisFinal⟩ := Frame.fields_merge? hg
    exact {
      ordered := by
        rw [hhosts]
        exact Merge.pairwise_sortTexts _
      hosts := by
        rw [hhosts, hframes, List.flatMap_append, List.flatMap_singleton]
        exact (Merge.sortTexts_perm _).trans (hv.hosts.append_right _)
      errors := by
        rw [herrors, List.flatMap_append, List.flatMap_singleton, hv.errors, ViewCall.errors_of_frame? hf]
      byHost := by
        intro host
        rw [hbyHost, KeyMap.get?_overwrite, hv.byHost, hframes, List.map_append, List.map_singleton,
          KeyMap.lastValue?_concat]
      byDisk := by
        intro disk
        rw [hbyDisk, KeyMap.get?_overwrite, hv.byDisk, hframes, List.map_append, List.map_singleton,
          KeyMap.lastValue?_concat]
      isFinal := hisFinal.trans hv.isFinal
      merged := by rw [hframes, List.length_append, List.length_singleton, ← hv.merged] }

theorem reflects_of_calls? (h : calls? calls = some v) : Reflects calls v := by
  induction calls using List.reverseRecOn generalizing v with
  | nil =>
    cases h
    exact reflects_nil
  | append_singleton calls c ih =>
    rw [calls?, List.foldlM_append] at h
    obtain ⟨u, hu, hc⟩ := bind_eq_some.1 h
    rw [List.foldlM_cons] at hc
    obtain ⟨w, hw, hv⟩ := bind_eq_some.1 hc
    cases hv
    exact (ih hu).call hw

theorem Reflects.hasHost_iff (hv : Reflects calls v) (host : String) :
    v.frame.hasHost host = true ↔ ∃ f ∈ frames calls, host ∈ f.hosts := by
  rw [Frame.hasHost_iff_mem hv.ordered, hv.hosts.mem_iff, List.mem_flatMap]

theorem map_total_foldlM_call? (calls : List ViewCall) (v : ClusterView) :
    (calls.foldlM call? v).map (·.frame.total) =
      ((frames calls).map Frame.total).foldlM MetricBundle.merge? v.frame.total := by
  induction calls generalizing v with
  | nil => rfl
  | cons c calls ih =>
    rw [List.foldlM_cons]
    cases hf : c.frame? with
    | none =>
      rw [call?_of_frame?_eq_none hf, frames, List.filterMap_cons_none hf]
      exact ih _
    | some f =>
      rw [call?_of_frame? hf, frames, List.filterMap_cons_some hf, List.map_cons, List.foldlM_cons, ← map_total_absorb?]
      cases v.absorb? f with
      | none => rfl
      | some w => exact ih w

theorem isSome_calls?_iff (calls : List ViewCall) :
    (calls? calls).isSome ↔ MetricBundle.Fits ((frames calls).map Frame.total) := by
  rw [calls?, ← Option.isSome_map, map_total_foldlM_call?]
  exact MetricBundle.isSome_foldlM

theorem calls?_filter_isSkipped (calls : List ViewCall) : calls? (calls.filter (!·.isSkipped)) = calls? calls := by
  have hfrom : ∀ v, (calls.filter (!·.isSkipped)).foldlM call? v = calls.foldlM call? v := by
    induction calls with
    | nil => exact fun _ => rfl
    | cons c calls ih =>
      intro v
      by_cases hc : c.isSkipped = true
      · rw [List.filter_cons_of_neg (by simp [hc]), List.foldlM_cons, call?_of_isSkipped hc]
        exact ih v
      · rw [List.filter_cons_of_pos (by simp [hc]), List.foldlM_cons, List.foldlM_cons]
        exact bind_congr ih
  exact hfrom {}

/-- A view after any calls: its hosts, errors, entries and count are those of the frames that came into it and of the
notes, in the order of the calls. -/
theorem reflects_calls (calls : List ViewCall) :
    ((calls? calls).isSome ↔ MetricBundle.Fits ((frames calls).map Frame.total)) ∧
    calls? (calls.filter (!·.isSkipped)) = calls? calls ∧
    ∀ v, calls? calls = some v → Reflects calls v ∧ (v.frame.hosts.map utf8Bytes).Pairwise (· ≤ ·) ∧
      ∀ host, v.frame.hasHost host = true ↔ ∃ f ∈ frames calls, host ∈ f.hosts := by
  refine ⟨isSome_calls?_iff calls, calls?_filter_isSkipped calls, fun v h => ?_⟩
  have hv := reflects_of_calls? h
  have hbytes := hv.ordered.imp le_iff_utf8Bytes.1
  exact ⟨hv, List.pairwise_map.2 hbytes, hv.hasHost_iff⟩

/-- A final frame with its hosts out of order, a node that was not asked for, a note, and a node that was. -/
def mixedCalls : List ViewCall :=
  let request := { Request.default with hosts := ["n2"], byHost := true }
  [.absorb { hosts := ["n3", "n1", "n3"], errors := ["n3: slow"], byHost := .ofList [("n2", {})], isFinal := true },
    .addNode { node := { address := "n9" } } request,
    .recordError "n4" "no route",
    .addNode { node := { address := "n2", error := "busy" }, metrics := { disk := some { drives := 2 } } } request]

theorem reflects_mixedCalls : ∃ v, calls? mixedCalls = some v ∧ v.frame.hosts.Perm ["n3", "n1", "n3", "n2"] ∧
    (v.frame.hosts.map utf8Bytes).Pairwise (· ≤ ·) ∧ v.frame.hasHost "n2" = true ∧ v.frame.hasHost "n9" = false ∧
    v.frame.errors = ["n3: slow", "n4: no route", "n2: busy"] ∧ v.frame.isFinal = false ∧ v.merged = 2 ∧
    (v.frame.byHost.get? "n2").map (·.has .disk) = some true := by
  obtain ⟨hfits, -, hreflects⟩ := reflects_calls mixedCalls
  have hsome : (calls? mixedCalls).isSome := by decide +kernel
  obtain ⟨v, hv⟩ := Option.isSome_iff_exists.1 hsome
  obtain ⟨h, hbytes, hhosts⟩ := hreflects v hv
  have hlisted : (frames mixedCalls).flatMap Frame.hosts = ["n3", "n1", "n3", "n2"] := by decide +kernel
  refine ⟨v, hv, hlisted ▸ h.hosts, hbytes, ?_, ?_, ?_, h.isFinal, ?_, ?_⟩
  · rw [hhosts, ← List.mem_flatMap, hlisted]
    decide
  · rw [← Bool.not_eq_true, hhosts, ← List.mem_flatMap, hlisted]
    decide
  · rw [h.errors]
    decide +kernel
  · rw [h.merged]
    decide +kernel
  · rw [h.byHost]
    decide +kernel

end ClusterView

end ClusterMetrics
