import Mathlib.Algebra.Order.BigOperators.Group.List
import ClusterMetrics.Proofs.Json.KeptFrames
import ClusterMetrics.Proofs.SortedTexts

/-! # Latency summaries are in order

Of up to `2 ^ 34` samples there always is a summary: no step of it fails, be it a place in the list, the end of a slice, a
sum in 128 bits, a division or a difference (`LatencySamples.measure?`). What is written of it ascends from the least
sample over the percentiles, and over the means, to the greatest (`LatencySamples.measure_ascends`). The durations
themselves need not ascend, since a mean ends at 64 bits and a sample may exceed them; what is written ends there too. -/

namespace ClusterMetrics

/-! ### Durations as they are written -/

/-- The largest number of 64 bits. -/
abbrev Duration.limit : Nat := 0xFFFFFFFFFFFFFFFF

/-- The number that is written. -/
def Duration.written (d : Duration) : Nat := d.saturatedNanoseconds.toNat

theorem Duration.toNat_min_limit (n : Nat) : (UInt64.ofNat (min n limit)).toNat = min n limit :=
  UInt64.toNat_ofNat_of_lt' (Nat.lt_of_le_of_lt (Nat.min_le_right ..) (by decide))

theorem Duration.written_eq (d : Duration) : d.written = min d.nanoseconds limit := toNat_min_limit d.nanoseconds

theorem Duration.written_mono {d e : Duration} (h : d.nanoseconds ≤ e.nanoseconds) : d.written ≤ e.written := by
  rw [written_eq, written_eq]
  omega

namespace Latency
variable {s xs ys : List Duration} {d : Duration} {i j n p q : Nat}

/-! ### Places -/

theorem roundedShare_le (hq : q ≤ 1000) : roundedShare n q ≤ n := by
  have hshare : n * q ≤ n * 1000 := Nat.mul_le_mul_left n hq
  unfold roundedShare
  omega

theorem roundedShare_mono (n : Nat) (h : p ≤ q) : roundedShare n p ≤ roundedShare n q := by
  have hshare : n * p ≤ n * q := Nat.mul_le_mul_left n h
  unfold roundedShare
  omega

theorem rank_eq (n q : Nat) : rank n q = min (roundedShare n q - 1) (n - 1) := rfl

theorem rank_lt (q : Nat) (hn : 0 < n) : rank n q < n :=
  Nat.lt_of_le_of_lt (Nat.min_le_right ..) (Nat.sub_lt hn Nat.one_pos)

theorem rank_mono (n : Nat) (h : p ≤ q) : rank n p ≤ rank n q := by
  have hshare := roundedShare_mono n h
  rw [rank_eq, rank_eq]
  omega

/-- The place of the median goes by another rule, yet never is behind that of three quarters. -/
theorem half_le_rank (n : Nat) : n / 2 ≤ rank n 750 := by
  rw [rank_eq, roundedShare]
  omega

/-- The places of the percentiles, in their order. -/
def percentilePlaces (n : Nat) : List Nat := [n / 2, rank n 750, rank n 950, rank n 990, rank n 999]

theorem lt_of_mem_percentilePlaces (hn : 0 < n) (hi : i ∈ percentilePlaces n) : i < n := by
  have hhalf : n / 2 < n := Nat.div_lt_self hn Nat.one_lt_two
  simp only [percentilePlaces, List.mem_cons, List.not_mem_nil, or_false] at hi
  rcases hi with rfl | rfl | rfl | rfl | rfl
  exacts [hhalf, rank_lt _ hn, rank_lt _ hn, rank_lt _ hn, rank_lt _ hn]

/-! ### Averages -/

def total (ds : List Duration) : Nat := (ds.map (·.nanoseconds)).sum

/-- The mean before it is cut to 64 bits. -/
def average (ds : List Duration) : Nat := total ds / ds.length

theorem total_append (xs ys : List Duration) : total (xs ++ ys) = total xs + total ys := by
  rw [total, List.map_append, List.sum_append]
  rfl

theorem total_eq_foldl (ds : List Duration) : ds.foldl (fun sum d => sum + d.nanoseconds) 0 = total ds := by
  rw [total, List.sum_eq_foldl, List.foldl_map]

theorem mul_le_total {b : Nat} (h : ∀ d ∈ s, b ≤ d.nanoseconds) : b * s.length ≤ total s := by
  have hsum := List.card_nsmul_le_sum (s.map (·.nanoseconds)) b (List.forall_mem_map.2 h)
  rwa [List.length_map, smul_eq_mul, Nat.mul_comm] at hsum

theorem total_le_mul {b : Nat} (h : ∀ d ∈ s, d.nanoseconds ≤ b) : total s ≤ b * s.length := by
  have hsum := List.sum_le_card_nsmul (s.map (·.nanoseconds)) b (List.forall_mem_map.2 h)
  rwa [List.length_map, smul_eq_mul, Nat.mul_comm] at hsum

theorem le_average {b : Nat} (hne : s ≠ []) (h : ∀ d ∈ s, b ≤ d.nanoseconds) : b ≤ average s :=
  (Nat.le_div_iff_mul_le (List.length_pos_iff.2 hne)).2 (mul_le_total h)

theorem average_le {b : Nat} (h : ∀ d ∈ s, d.nanoseconds ≤ b) : average s ≤ b :=
  Nat.div_le_of_le_mul (Nat.mul_comm b _ ▸ total_le_mul h)

/-- No sample of the first list exceeds one of the second. -/
def Precedes (xs ys : List Duration) : Prop := ∀ x ∈ xs, ∀ y ∈ ys, x.nanoseconds ≤ y.nanoseconds

theorem average_le_average_append (h : Precedes xs ys) : average xs ≤ average (xs ++ ys) := by
  by_cases hne : xs = []
  · rw [hne, average, List.length_nil, Nat.div_zero]
    exact Nat.zero_le _
  refine (Nat.le_div_iff_mul_le (List.length_pos_iff.2 (List.append_ne_nil_of_left_ne_nil hne ys))).2 ?_
  have hfirst : average xs * xs.length ≤ total xs := Nat.div_mul_le_self ..
  have hsecond : average xs * ys.length ≤ total ys := mul_le_total fun y hy => average_le fun x hx => h x hx y hy
  rw [List.length_append, Nat.mul_add, total_append]
  exact Nat.add_le_add hfirst hsecond

theorem average_append_le_average (hne : ys ≠ []) (h : Precedes xs ys) : average (xs ++ ys) ≤ average ys := by
  have hlength : 0 < ys.length := List.length_pos_iff.2 hne
  have hfirst : total xs ≤ average ys * xs.length := total_le_mul fun x hx => le_average hne fun y hy => h x hx y hy
  -- Division rounds down, so the samples of the second list may exceed their average by less than their number.
  have hsecond : total ys < average ys * ys.length + ys.length := Nat.lt_div_mul_add hlength
  refine Nat.le_of_lt_succ (Nat.div_lt_of_lt_mul ?_)
  rw [total_append, List.length_append]
  calc total xs + total ys
      < average ys * xs.length + (average ys * ys.length + ys.length) := Nat.add_lt_add_of_le_of_lt hfirst hsecond
    _ ≤ (xs.length + ys.length) * (average ys + 1) := by
        rw [Nat.mul_comm _ (average ys + 1), Nat.mul_add, Nat.add_mul, Nat.add_mul, Nat.one_mul, Nat.one_mul]
        omega

/-! ### Means as they are written -/

theorem mean_eq (ds : List Duration) : mean ds = .ofNanoseconds (UInt64.ofNat (min (average ds) Duration.limit)) := by
  rw [mean, total_eq_foldl]
  rfl

theorem written_mean (ds : List Duration) : (mean ds).written = min (average ds) Duration.limit := by
  have hmean : (mean ds).nanoseconds = min (average ds) Duration.limit := by
    rw [mean_eq]
    exact Duration.toNat_min_limit (average ds)
  rw [Duration.written_eq, hmean, Nat.min_assoc, Nat.min_self]

theorem written_le_mean (hne : s ≠ []) (h : ∀ e ∈ s, d.nanoseconds ≤ e.nanoseconds) : d.written ≤ (mean s).written := by
  have hle := le_average hne h
  rw [Duration.written_eq, written_mean]
  omega

theorem written_mean_le (h : ∀ e ∈ s, e.nanoseconds ≤ d.nanoseconds) : (mean s).written ≤ d.written := by
  have hle := average_le h
  rw [written_mean, Duration.written_eq]
  omega

theorem written_mean_take_le (k : Nat) (h : Precedes (s.take k) (s.drop k)) :
    (mean (s.take k)).written ≤ (mean s).written := by
  have hle := average_le_average_append h
  rw [List.take_append_drop] at hle
  rw [written_mean, written_mean]
  omega

theorem written_mean_le_drop {k : Nat} (hne : s.drop k ≠ []) (h : Precedes (s.take k) (s.drop k)) :
    (mean s).written ≤ (mean (s.drop k)).written := by
  have hle := average_append_le_average hne h
  rw [List.take_append_drop] at hle
  rw [written_mean, written_mean]
  omega

/-! ### Samples in ascending order -/

def IsAscending (ds : List Duration) : Prop := ds.Pairwise fun d e => d.nanoseconds ≤ e.nanoseconds

theorem isAscending_ascending (ds : List Duration) : IsAscending (ascending ds) :=
  pairwise_mergeSort_le Duration.nanoseconds ds

theorem IsAscending.precedes (h : IsAscending s) (k : Nat) : Precedes (s.take k) (s.drop k) := by
  unfold IsAscending at h
  rw [← List.take_append_drop k s, List.pairwise_append] at h
  exact h.2.2

def nth (ds : List Duration) (i : Nat) : Duration := ds[i]?.getD .zero

theorem nth_eq_getElem (hi : i < s.length) : nth s i = s[i] := by
  rw [nth, List.getElem?_eq_getElem hi, Option.getD_some]

theorem getElem?_eq_nth (hi : i < s.length) : s[i]? = some (nth s i) := by
  rw [nth_eq_getElem hi, List.getElem?_eq_getElem hi]

theorem IsAscending.nth_mono (h : IsAscending s) (hij : i ≤ j) (hj : j < s.length) :
    (nth s i).nanoseconds ≤ (nth s j).nanoseconds := by
  rcases Nat.eq_or_lt_of_le hij with rfl | hlt
  · exact Nat.le_refl _
  · rw [nth_eq_getElem (Nat.lt_trans hlt hj), nth_eq_getElem hj]
    exact List.pairwise_iff_getElem.1 h i j _ hj hlt

theorem IsAscending.nth_zero_le (h : IsAscending s) : ∀ d ∈ s, (nth s 0).nanoseconds ≤ d.nanoseconds := by
  intro d hd
  obtain ⟨i, hi, rfl⟩ := List.mem_iff_getElem.1 hd
  rw [← nth_eq_getElem hi]
  exact h.nth_mono (Nat.zero_le i) hi

theorem IsAscending.le_nth_last (h : IsAscending s) : ∀ d ∈ s, d.nanoseconds ≤ (nth s (s.length - 1)).nanoseconds := by
  intro d hd
  obtain ⟨i, hi, rfl⟩ := List.mem_iff_getElem.1 hd
  rw [← nth_eq_getElem hi]
  exact h.nth_mono (Nat.le_sub_one_of_lt hi) (by omega)

/-! ### Steps that could fail

There is no sum past 128 bits, no mean of no samples, no slice that ends behind the list, no negative span and no sample
outside the list. -/

/-- A sum in 128 bits. -/
def sum? (ds : List Duration) : Option Nat :=
  ds.foldlM (fun sum d => if sum + d.nanoseconds < 2 ^ 128 then some (sum + d.nanoseconds) else none) 0

def mean? (ds : List Duration) : Option Duration := do
  let sum ← sum? ds
  if ds.length = 0 then none else return .ofNanoseconds (UInt64.ofNat (min (sum / ds.length) Duration.limit))

def prefix? (ds : List Duration) (k : Nat) : Option (List Duration) :=
  if k ≤ ds.length then some (ds.take k) else none

def sub? (d e : Duration) : Option Duration := if e.nanoseconds ≤ d.nanoseconds then some (sub d e) else none

def slowest? (s : List Duration) (greatest : Duration) : Option Duration :=
  let slow := s.drop (roundedShare s.length 950)
  if 1 < slow.length then mean? slow else some greatest

def fastest? (s : List Duration) (least : Duration) : Option Duration :=
  let bound := min (roundedShare s.length 50) s.length
  if 1 < bound then (prefix? s bound).bind mean? else some least

/-- The summary of samples in ascending order, if no step fails. -/
def summarizeAscending? (s : List Duration) : Option LatencySummary :=
  if s.isEmpty then some .zero
  else do
    let n := s.length
    let least ← s[0]?
    let greatest ← s[n - 1]?
    let average ← mean? s
    return { mean := average
             p50 := ← s[n / 2]?
             p75 := ← s[rank n 750]?
             p95 := ← s[rank n 950]?
             p99 := ← s[rank n 990]?
             p999 := ← s[rank n 999]?
             slowest := ← slowest? s greatest
             fastest := ← fastest? s least
             max := greatest
             min := least
             deviation := deviation s average
             range := ← sub? greatest least }

theorem foldlM_sum {sum : Nat} (hsum : sum < 2 ^ 128) :
    s.foldlM (fun sum d => if sum + d.nanoseconds < 2 ^ 128 then some (sum + d.nanoseconds) else none) sum =
      if sum + total s < 2 ^ 128 then some (sum + total s) else none := by
  induction s generalizing sum with
  | nil => exact (if_pos hsum).symm
  | cons d s ih =>
    have htotal : total (d :: s) = d.nanoseconds + total s := rfl
    rw [htotal, ← Nat.add_assoc, List.foldlM_cons]
    by_cases hfits : sum + d.nanoseconds < 2 ^ 128
    · rw [if_pos hfits]
      exact ih hfits
    · rw [if_neg hfits, if_neg (by omega)]
      rfl

theorem sum?_eq (s : List Duration) : sum? s = if total s < 2 ^ 128 then some (total s) else none := by
  rw [sum?, foldlM_sum (by decide), Nat.zero_add]

theorem total_lt (h : s.length ≤ 2 ^ 34) : total s < 2 ^ 128 := by
  have htotal : total s ≤ 0x10000000000000000 * 1000000000 * s.length :=
    total_le_mul fun d _ => Nat.le_of_lt d.nanoseconds_lt
  omega

theorem total_take_le (s : List Duration) (k : Nat) : total (s.take k) ≤ total s := by
  conv_rhs => rw [← List.take_append_drop k s, total_append]
  exact Nat.le_add_right ..

theorem total_drop_le (s : List Duration) (k : Nat) : total (s.drop k) ≤ total s := by
  conv_rhs => rw [← List.take_append_drop k s, total_append]
  exact Nat.le_add_left ..

theorem mean?_eq_none (h : ¬ total s < 2 ^ 128) : mean? s = none := by
  rw [mean?, sum?_eq, if_neg h]
  rfl

theorem mean?_eq (hne : s ≠ []) (h : total s < 2 ^ 128) : mean? s = some (mean s) := by
  rw [mean?, sum?_eq, if_pos h, mean_eq]
  exact if_neg (mt List.length_eq_zero_iff.1 hne)

theorem prefix?_eq {k : Nat} (h : k ≤ s.length) : prefix? s k = some (s.take k) := if_pos h

theorem sub?_eq {e : Duration} (h : e.nanoseconds ≤ d.nanoseconds) : sub? d e = some (sub d e) := if_pos h

/-- The mean of the slowest samples, or the greatest of all. -/
def slowest (s : List Duration) : Duration :=
  if 1 < (s.drop (roundedShare s.length 950)).length then mean (s.drop (roundedShare s.length 950)) else nth s (s.length - 1)

/-- The mean of the fastest samples, or the least of all. -/
def fastest (s : List Duration) : Duration :=
  if 1 < (s.take (roundedShare s.length 50)).length then mean (s.take (roundedShare s.length 50)) else nth s 0

theorem summarizeAscending_eq (hne : s ≠ []) : summarizeAscending s =
    { mean := mean s
      p50 := nth s (s.length / 2)
      p75 := nth s (rank s.length 750)
      p95 := nth s (rank s.length 950)
      p99 := nth s (rank s.length 990)
      p999 := nth s (rank s.length 999)
      slowest := slowest s
      fastest := fastest s
      max := nth s (s.length - 1)
      min := nth s 0
      deviation := deviation s (mean s)
      range := sub (nth s (s.length - 1)) (nth s 0) } := by
  cases s with
  | nil => exact absurd rfl hne
  | cons least s => rfl

theorem slowest?_eq (h : total s < 2 ^ 128) : slowest? s (nth s (s.length - 1)) = some (slowest s) := by
  unfold slowest? slowest
  dsimp only
  split
  case isTrue hmany =>
    exact mean?_eq (List.length_pos_iff.1 (Nat.zero_lt_of_lt hmany)) (Nat.lt_of_le_of_lt (total_drop_le s _) h)
  case isFalse => rfl

theorem fastest?_eq (h : total s < 2 ^ 128) : fastest? s (nth s 0) = some (fastest s) := by
  have hshare : roundedShare s.length 50 ≤ s.length := roundedShare_le (by decide)
  have hbound : (s.take (roundedShare s.length 50)).length = roundedShare s.length 50 := List.length_take_of_le hshare
  unfold fastest? fastest
  dsimp only
  rw [Nat.min_eq_left hshare, hbound, prefix?_eq hshare]
  split
  case isTrue hmany =>
    have hne : s.take (roundedShare s.length 50) ≠ [] := List.length_pos_iff.1 (by omega)
    exact mean?_eq hne (Nat.lt_of_le_of_lt (total_take_le s _) h)
  case isFalse => rfl

/-- The percentiles are the samples at their places. -/
theorem getElem?_percentilePlaces (hne : s ≠ []) : (percentilePlaces s.length).map (s[·]?) =
    [(summarizeAscending s).p50, (summarizeAscending s).p75, (summarizeAscending s).p95, (summarizeAscending s).p99,
      (summarizeAscending s).p999].map some := by
  have hplaces := List.map_congr_left fun i hi =>
    getElem?_eq_nth (s := s) (lt_of_mem_percentilePlaces (List.length_pos_iff.2 hne) hi)
  rw [hplaces, summarizeAscending_eq hne]
  rfl

/-- Of samples in ascending order no step fails but for a sum past 128 bits. -/
theorem summarizeAscending?_eq_ite (h : IsAscending s) :
    summarizeAscending? s = if total s < 2 ^ 128 then some (summarizeAscending s) else none := by
  by_cases hne : s = []
  · rw [hne]
    rfl
  have hn : 0 < s.length := List.length_pos_iff.2 hne
  have hlast : s.length - 1 < s.length := Nat.sub_lt hn Nat.one_pos
  rw [summarizeAscending?, if_neg (mt List.isEmpty_iff.1 hne)]
  by_cases htotal : total s < 2 ^ 128
  · have hplaces := getElem?_percentilePlaces hne
    simp only [percentilePlaces, List.map_cons, List.cons.injEq] at hplaces
    obtain ⟨hp50, hp75, hp95, hp99, hp999, -⟩ := hplaces
    have hrange := sub?_eq (h.nth_mono (Nat.zero_le (s.length - 1)) hlast)
    simp only [getElem?_eq_nth hn, getElem?_eq_nth hlast, mean?_eq hne htotal, hp50, hp75, hp95, hp99, hp999,
      slowest?_eq htotal, fastest?_eq htotal, hrange, Option.bind_eq_bind, Option.bind_some, Option.pure_def]
    rw [summarizeAscending_eq hne, if_pos htotal]
  · simp only [getElem?_eq_nth hn, getElem?_eq_nth hlast, mean?_eq_none htotal, Option.bind_eq_bind, Option.bind_some,
      Option.bind_none]
    rw [if_neg htotal]

/-- Up to `2 ^ 34` samples in ascending order no step fails. -/
theorem summarizeAscending?_eq (h : IsAscending s) (hlength : s.length ≤ 2 ^ 34) :
    summarizeAscending? s = some (summarizeAscending s) := by
  rw [summarizeAscending?_eq_ite h, if_pos (total_lt hlength)]

/-! ### The order of a summary -/

/-- The least place, those of the percentiles, and the last one ascend. -/
theorem pairwise_places (n : Nat) : (0 :: percentilePlaces n ++ [n - 1]).Pairwise (· ≤ ·) := by
  have hhalf := half_le_rank n
  have h75 := rank_mono n (show 750 ≤ 950 by decide)
  have h95 := rank_mono n (show 950 ≤ 990 by decide)
  have h99 := rank_mono n (show 990 ≤ 999 by decide)
  have hlast : rank n 999 ≤ n - 1 := Nat.min_le_right ..
  rw [← List.isChain_iff_pairwise]
  simp only [percentilePlaces, List.cons_append, List.nil_append, List.isChain_cons_cons, List.isChain_singleton]
  exact ⟨Nat.zero_le _, hhalf, h75, h95, h99, hlast, trivial⟩

theorem IsAscending.written_nth (h : IsAscending s) (hij : i ≤ j) (hj : j < s.length) :
    (nth s i).written ≤ (nth s j).written := Duration.written_mono (h.nth_mono hij hj)

theorem IsAscending.percentiles_ascend (h : IsAscending s) (hne : s ≠ []) :
    ((0 :: percentilePlaces s.length ++ [s.length - 1]).map (nth s)).Pairwise (·.written ≤ ·.written) := by
  have hn : 0 < s.length := List.length_pos_iff.2 hne
  have hlt : ∀ i ∈ 0 :: percentilePlaces s.length ++ [s.length - 1], i < s.length := by
    intro i hi
    rcases List.mem_append.1 hi with hi | hi
    · rcases List.mem_cons.1 hi with rfl | hi
      · exact hn
      · exact lt_of_mem_percentilePlaces hn hi
    · rw [List.mem_singleton.1 hi]
      exact Nat.sub_lt hn Nat.one_pos
  exact List.pairwise_map.2 ((pairwise_places _).imp_of_mem fun _ hj hij => h.written_nth hij (hlt _ hj))

theorem IsAscending.means_ascend (h : IsAscending s) (hne : s ≠ []) :
    [nth s 0, fastest s, mean s, slowest s, nth s (s.length - 1)].Pairwise (·.written ≤ ·.written) := by
  have hleast : (nth s 0).written ≤ (fastest s).written := by
    unfold fastest
    split
    case isTrue hmany =>
      exact written_le_mean (List.length_pos_iff.1 (Nat.zero_lt_of_lt hmany)) fun d hd =>
        h.nth_zero_le d (List.mem_of_mem_take hd)
    case isFalse => exact Nat.le_refl _
  have hfastest : (fastest s).written ≤ (mean s).written := by
    unfold fastest
    split
    case isTrue => exact written_mean_take_le _ (h.precedes _)
    case isFalse => exact written_le_mean hne h.nth_zero_le
  have hslowest : (mean s).written ≤ (slowest s).written := by
    unfold slowest
    split
    case isTrue hmany => exact written_mean_le_drop (List.length_pos_iff.1 (Nat.zero_lt_of_lt hmany)) (h.precedes _)
    case isFalse => exact written_mean_le h.le_nth_last
  have hgreatest : (slowest s).written ≤ (nth s (s.length - 1)).written := by
    unfold slowest
    split
    case isTrue => exact written_mean_le fun d hd => h.le_nth_last d (List.mem_of_mem_drop hd)
    case isFalse => exact Nat.le_refl _
  rw [← List.pairwise_map (f := Duration.written) (R := (· ≤ ·)), ← List.isChain_iff_pairwise]
  simp only [List.map_cons, List.map_nil, List.isChain_cons_cons, List.isChain_singleton]
  exact ⟨hleast, hfastest, hslowest, hgreatest, trivial⟩

end Latency

/-! ### The numbers in a text -/

namespace Json

/-- The integer held in the one member of a name. -/
def integerOf? (j : Json) (name : String) : Option Int :=
  match j with
  | object members => do
    match (← namedMembers? members).filter (·.1 == name) with
    | [(_, value)] => value.integer?
    | _ => none
  | _ => none

/-- The members of the names hold integers, none less than the one before. -/
def Ascends (names : List String) (j : Json) : Prop :=
  ∃ ns, names.mapM j.integerOf? = some ns ∧ ns.Pairwise (· ≤ ·)

end Json

theorem Record.integerOf?_write {σ : Type} {r : Record σ} {f : Field σ} (hnames : (r.fields.map (·.name)).Nodup)
    (hf : f ∈ r.fields) {s : σ} (ho : f.isOmitted (f.get s) = false) :
    (r.codec.write s).integerOf? f.name = (f.codec.write (f.get s)).integer? := by
  rw [write_eq, Json.integerOf?, Json.namedMembers?_map, List.map_id']
  show (match (r.fields.filterMap (·.member? s)).filter (·.1 == f.name) with
    | [(_, value)] => value.integer?
    | _ => none) = _
  rw [filter_members hnames hf, Field.member?, ho]
  rfl

theorem Duration.integer?_write (d : Duration) : (codec.write d).integer? = some (d.written : Int) := Json.integer?_ofInt _

namespace LatencySummary

theorem isOmitted_eq_false (t : LatencySummary) : ∀ f ∈ record.fields, f.isOmitted (f.get t) = false := by
  simp only [record, List.forall_mem_cons]
  iterate 12 refine ⟨rfl, ?_⟩
  exact List.forall_mem_nil _

theorem wellFormed_write (t : LatencySummary) : (codec.write t).WellFormed := by
  refine Record.wellFormed_write ?_
  simp only [record, List.forall_mem_cons]
  iterate 12 refine ⟨(Codec.Keeps.uint64 _).wellFormed, ?_⟩
  exact List.forall_mem_nil _

theorem integers_write (t : LatencySummary) : record.fields.map (fun f => (codec.write t).integerOf? f.name) =
    [t.mean, t.p50, t.p75, t.p95, t.p99, t.p999, t.slowest, t.fastest, t.max, t.min, t.deviation, t.range].map
      fun d => some (d.written : Int) := by
  have hmembers := List.map_congr_left fun f hf =>
    Record.integerOf?_write (r := record) (s := t) (by decide) hf (t.isOmitted_eq_false f hf)
  refine hmembers.trans ?_
  simp only [record, List.map_cons, List.map_nil, Field.required, Duration.integer?_write]

/-- Percentiles and means, each from the least to the greatest sample, ascend as they are written. -/
structure IsOrdered (t : LatencySummary) : Prop where
  percentiles : [t.min, t.p50, t.p75, t.p95, t.p99, t.p999, t.max].Pairwise (·.written ≤ ·.written)
  means : [t.min, t.fastest, t.mean, t.slowest, t.max].Pairwise (·.written ≤ ·.written)

theorem IsOrdered.ascends {t : LatencySummary} (h : t.IsOrdered) :
    (codec.write t).Ascends ["min", "p50", "p75", "p95", "p99", "p999", "max"] ∧
    (codec.write t).Ascends ["min", "s5p", "avg", "l5p", "max"] := by
  have hmembers := integers_write t
  simp only [record, Field.required, List.map_cons, List.map_nil, List.cons.injEq] at hmembers
  obtain ⟨havg, hp50, hp75, hp95, hp99, hp999, hl5p, hs5p, hmax, hmin, -⟩ := hmembers
  have hascend : ∀ {ds : List Duration}, ds.Pairwise (·.written ≤ ·.written) →
      (ds.map fun d => (d.written : Int)).Pairwise (· ≤ ·) := fun hds =>
    List.pairwise_map.2 (hds.imp Int.ofNat_le.2)
  refine ⟨⟨_, ?_, hascend h.percentiles⟩, ⟨_, ?_, hascend h.means⟩⟩
  · simp only [List.mapM_cons, List.mapM_nil, hmin, hp50, hp75, hp95, hp99, hp999, hmax]
    rfl
  · simp only [List.mapM_cons, List.mapM_nil, hmin, hs5p, havg, hl5p, hmax]
    rfl

end LatencySummary

theorem Latency.IsAscending.isOrdered {s : List Duration} (h : IsAscending s) : (summarizeAscending s).IsOrdered := by
  by_cases hne : s = []
  · rw [hne]
    exact ⟨by decide, by decide⟩
  · rw [summarizeAscending_eq hne]
    exact ⟨h.percentiles_ascend hne, h.means_ascend hne⟩

/-- What is not written may descend, from the least sample to the mean. -/
example : (Latency.summarizeAscending [⟨2 ^ 64, by decide⟩]).mean.nanoseconds <
    (Latency.summarizeAscending [⟨2 ^ 64, by decide⟩]).min.nanoseconds := by decide

namespace LatencySamples

/-- The summary, and the samples as they are left, if no step fails. -/
def measure? (s : LatencySamples) : Option (LatencySummary × LatencySamples) :=
  (Latency.summarizeAscending? s.sorted.durations).map fun t => (t, s.sorted)

/-- Of up to `2 ^ 34` samples no step of the summary fails, the percentiles are the samples at their places, which are in
the list, and what is written of the summary ascends. -/
theorem measure_ascends (s : LatencySamples) (h : s.size ≤ 2 ^ 34) :
    s.measure? = some s.measure ∧
    (s.size ≠ 0 → (∀ i ∈ Latency.percentilePlaces s.size, i < s.size) ∧
      (Latency.percentilePlaces s.size).map (s.measure.2.durations[·]?) =
        [s.measure.1.p50, s.measure.1.p75, s.measure.1.p95, s.measure.1.p99, s.measure.1.p999].map some) ∧
    ∀ text ∈ [LatencySummary.codec.compact s.measure.1, LatencySummary.codec.pretty s.measure.1], ∃ j,
      Json.parse? text = some j ∧ j.Ascends ["min", "p50", "p75", "p95", "p99", "p999", "max"] ∧
      j.Ascends ["min", "s5p", "avg", "l5p", "max"] := by
  have hsorted : Latency.IsAscending s.sorted.durations := Latency.isAscending_ascending s.durations
  have hlength : s.sorted.durations.length = s.size := List.length_mergeSort s.durations
  have hwellFormed := LatencySummary.wellFormed_write s.summary
  refine ⟨?_, fun hsize => ⟨fun i => Latency.lt_of_mem_percentilePlaces (Nat.pos_of_ne_zero hsize), ?_⟩, ?_⟩
  · rw [measure?, Latency.summarizeAscending?_eq hsorted (hlength ▸ h)]
    rfl
  · rw [← hlength] at hsize ⊢
    exact Latency.getElem?_percentilePlaces (mt List.length_eq_zero_iff.2 hsize)
  · simp only [List.forall_mem_cons]
    exact ⟨⟨_, Json.parse?_compact hwellFormed, hsorted.isOrdered.ascends⟩,
      ⟨_, Json.parse?_pretty hwellFormed, hsorted.isOrdered.ascends⟩, nofun⟩

/-- Two seconds, the longest time there is, and a nanosecond. -/
def farApart : LatencySamples :=
  ⟨[⟨2000000000, by decide⟩, ⟨0x10000000000000000 * 1000000000 - 1, by decide⟩, ⟨1, by decide⟩]⟩

theorem measure_farApart : farApart.measure.1 = Latency.summarizeAscending
    [⟨1, by decide⟩, ⟨2000000000, by decide⟩, ⟨0x10000000000000000 * 1000000000 - 1, by decide⟩] := by
  refine congrArg Latency.summarizeAscending ?_
  simp [farApart, sorted, Latency.ascending, List.mergeSort, List.MergeSort.Internal.splitInTwo]

theorem measure_ascends_farApart : farApart.size ≤ 2 ^ 34 ∧ farApart.measure? = some farApart.measure ∧
    (∃ j, Json.parse? (LatencySummary.codec.compact farApart.measure.1) = some j ∧
      j.Ascends ["min", "p50", "p75", "p95", "p99", "p999", "max"] ∧ j.Ascends ["min", "s5p", "avg", "l5p", "max"]) ∧
    farApart.measure.1.min.written = 1 ∧ farApart.measure.1.p50.written = 2000000000 ∧
    farApart.measure.1.mean.written = 0xFFFFFFFFFFFFFFFF ∧ farApart.measure.1.max.written = 0xFFFFFFFFFFFFFFFF := by
  have hsize : farApart.size ≤ 2 ^ 34 := by decide
  obtain ⟨hmeasure, -, htexts⟩ := measure_ascends farApart hsize
  refine ⟨hsize, hmeasure, htexts _ (.head _), ?_⟩
  rw [measure_farApart]
  decide

end LatencySamples

end ClusterMetrics
