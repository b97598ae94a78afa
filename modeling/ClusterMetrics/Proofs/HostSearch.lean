import ClusterMetrics.Proofs.GrowingViews
import ClusterMetrics.Proofs.Json.ReadValues

/-! # Which hosts are found

A host is looked up by halves, which asks for hosts in order. Every merge puts them in order, and the reply of a node
lists one host only, but a frame that was read has its hosts as the text lists them. The search never finds a host that
is not listed. It finds all that are listed if they are in order, and if they are distinct only then
(`Frame.findsHosts_of_arises`), so a host may be overlooked in a frame as it was read (`Frame.not_hasHost_outOfOrder`). -/

namespace ClusterMetrics

namespace Frame
variable {f : Frame} {s t : String} {size : Nat}

/-! ### Where searches end -/

theorem searchFrom_mem_range (texts : Array String) (t : String) (base : Nat) (hsize : 0 < size) :
    base ≤ searchFrom texts t base size ∧ searchFrom texts t base size < base + size := by
  induction size using Nat.strongRecOn generalizing base with
  | ind size ih =>
    rw [searchFrom]
    split
    case isFalse hsmall => omega
    case isTrue hlarge =>
      dsimp only
      split
      case isTrue =>
        have hleft := ih (size - size / 2) (by omega) base (by omega)
        omega
      case isFalse =>
        have hright := ih (size - size / 2) (by omega) (base + size / 2) (by omega)
        omega

/-- A greater text is not searched further to the left, whatever the order of the texts. -/
theorem searchFrom_mono (texts : Array String) (hst : s ≤ t) (base size : Nat) :
    searchFrom texts s base size ≤ searchFrom texts t base size := by
  induction size using Nat.strongRecOn generalizing base with
  | ind size ih =>
    rw [searchFrom.eq_def texts s, searchFrom.eq_def texts t]
    split
    case isFalse hsmall => exact Nat.le_refl _
    case isTrue hlarge =>
      have hfewer : size - size / 2 < size := by omega
      have hpositive : 0 < size - size / 2 := by omega
      dsimp only
      by_cases ht : t < texts.getD (base + size / 2) ""
      · have hs : s < texts.getD (base + size / 2) "" := String.not_le.1 fun hle => String.not_le.2 ht (String.le_trans hle hst)
        rw [if_pos hs, if_pos ht]
        exact ih _ hfewer _
      · rw [if_neg ht]
        split
        case isTrue =>
          -- The halves share one position at most, the last of the left and the first of the right one.
          have hleft := searchFrom_mem_range texts s base hpositive
          have hright := searchFrom_mem_range texts t (base + size / 2) hpositive
          omega
        case isFalse => exact ih _ hfewer _

/-! ### Finding all hosts -/

/-- Just the hosts that are listed are found. -/
def FindsHosts (f : Frame) : Prop := ∀ host, f.hasHost host = true ↔ host ∈ f.hosts

/-- Hosts are listed in the order of their bytes. -/
def HasSortedHosts (f : Frame) : Prop := (f.hosts.map utf8Bytes).Pairwise (· ≤ ·)

theorem hasSortedHosts_iff : f.HasSortedHosts ↔ f.hosts.Pairwise (· ≤ ·) := by
  rw [HasSortedHosts, List.pairwise_map]
  simp only [le_iff_utf8Bytes]

theorem mem_of_hasHost {host : String} (h : f.hasHost host = true) : host ∈ f.hosts := by
  rw [hasHost, beq_iff_eq, List.getElem?_toArray] at h
  exact List.mem_of_getElem? h

theorem HasSortedHosts.findsHosts (h : f.HasSortedHosts) : f.FindsHosts :=
  fun _ => hasHost_iff_mem (hasSortedHosts_iff.1 h)

theorem FindsHosts.hasSortedHosts (h : f.FindsHosts) (hdistinct : f.hosts.Nodup) : f.HasSortedHosts := by
  have hends : ∀ (i : Nat) (hi : i < f.hosts.length), searchFrom f.hosts.toArray f.hosts[i] 0 f.hosts.length = i := by
    intro i hi
    have hfound := (h f.hosts[i]).2 (List.getElem_mem hi)
    rw [hasHost, beq_iff_eq, List.getElem?_toArray, List.size_toArray] at hfound
    obtain ⟨hlt, heq⟩ := List.getElem?_eq_some_iff.1 hfound
    exact (hdistinct.getElem_inj_iff).1 heq
  refine hasSortedHosts_iff.2 (List.pairwise_iff_getElem.2 fun i j hi hj hij => ?_)
  -- Were the later host less, its search would not end further to the right.
  rcases String.le_total f.hosts[i] f.hosts[j] with hle | hgreater
  · exact hle
  · have hends_le := searchFrom_mono f.hosts.toArray hgreater 0 f.hosts.length
    rw [hends i hi, hends j hj] at hends_le
    omega

/-! ### How frames come into being -/

/-- Frames are read, made of the reply of a node, or merged. -/
inductive Arises : Frame → Prop
  | read {f : Frame} (h : codec.Decodes f) : Arises f
  | ofNode (node : NodeReport) (request : Request) : Arises (ofNode node request)
  | merged {a b c : Frame} (ha : Arises a) (hb : Arises b) (h : a.merge? b = some c) : Arises c

theorem hasSortedHosts_merge? {a b c : Frame} (h : a.merge? b = some c) : c.HasSortedHosts := by
  rw [hasSortedHosts_iff, hosts_merge? h]
  exact Merge.pairwise_sortTexts _

/-- Only a frame that was read may have its hosts out of order. -/
theorem Arises.hasSortedHosts (h : f.Arises) : f.HasSortedHosts ∨ codec.Decodes f := by
  cases h with
  | read h => exact .inr h
  | ofNode node request => exact .inl (List.pairwise_singleton ..)
  | merged _ _ h => exact .inl (hasSortedHosts_merge? h)

/-- No host is found that is not listed. Just the listed ones are found in every merged frame, and in every other one but
those that were read with their hosts out of order; in these not if the hosts are distinct. -/
theorem findsHosts_of_arises (h : f.Arises) :
    (∀ host, f.hasHost host = true → host ∈ f.hosts) ∧
    (∀ a b : Frame, a.merge? b = some f → f.FindsHosts) ∧
    (f.FindsHosts ∨ codec.Decodes f ∧ ¬ f.HasSortedHosts) ∧
    (f.hosts.Nodup → (f.FindsHosts ↔ f.HasSortedHosts)) := by
  refine ⟨fun _ => mem_of_hasHost, fun a b h => (hasSortedHosts_merge? h).findsHosts, ?_, fun hdistinct => ?_⟩
  · by_cases hsorted : f.HasSortedHosts
    · exact .inl hsorted.findsHosts
    · exact .inr ⟨h.hasSortedHosts.resolve_left hsorted, hsorted⟩
  · exact ⟨fun hfinds => hfinds.hasSortedHosts hdistinct, HasSortedHosts.findsHosts⟩

/-- A frame with two hosts, the later one first. -/
def outOfOrder : Bytes := utf8Bytes "\x7b\"hosts\":[\"n2\",\"n1\"]\x7d"

theorem hosts_outOfOrder : (codec.decode? outOfOrder).map (·.hosts) = some ["n2", "n1"] := by decide +kernel

/-- Once the frame is merged with another one, its hosts are found. -/
theorem findsHosts_outOfOrder_merged : ∃ f c, codec.decode? outOfOrder = some f ∧
    f.merge? (ofNode { node := { address := "n1" } } .default) = some c ∧ c.hasHost "n2" = true ∧ c.hasHost "n3" = false := by
  have hsome : ((codec.decode? outOfOrder).bind (·.merge? (ofNode { node := { address := "n1" } } .default))).isSome := by
    decide +kernel
  obtain ⟨c, hc⟩ := Option.isSome_iff_exists.1 hsome
  obtain ⟨f, hf, hc⟩ := Option.bind_eq_some_iff.1 hc
  have harises : c.Arises := .merged (.read ⟨outOfOrder, hf⟩) (.ofNode ..) hc
  have hfinds := (findsHosts_of_arises harises).2.1 _ _ hc
  have hread : f.hosts = ["n2", "n1"] := by simpa [hf] using hosts_outOfOrder
  have hhosts : c.hosts.Perm ["n2", "n1", "n1"] := by
    rw [hosts_merge? hc, hread]
    exact Merge.sortTexts_perm _
  refine ⟨f, c, hf, hc, (hfinds "n2").2 (hhosts.mem_iff.2 (by decide)), ?_⟩
  rw [← Bool.not_eq_true, hfinds, hhosts.mem_iff]
  decide

/-- A host that a frame lists is overlooked. -/
theorem not_hasHost_outOfOrder : ∃ f : Frame, f.Arises ∧ "n2" ∈ f.hosts ∧ f.hasHost "n2" = false := by
  obtain ⟨f, hf, hhosts⟩ := Option.map_eq_some_iff.1 hosts_outOfOrder
  refine ⟨f, .read ⟨outOfOrder, hf⟩, by simp [hhosts], ?_⟩
  -- The search goes on in the right half, where the lesser host is.
  have hright : ¬ "n2" < "n1" := by decide
  have hends : searchFrom #["n2", "n1"] "n2" 0 2 = 1 := by simp [searchFrom, hright]
  simp [hasHost, hhosts, hends]

end Frame

end ClusterMetrics
