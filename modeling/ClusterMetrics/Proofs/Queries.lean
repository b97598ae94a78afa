import ClusterMetrics.Proofs.DurationTexts
import ClusterMetrics.Proofs.FormPairs
import ClusterMetrics.Request.Query

/-! # Requests are read from their query strings

What is read from the query string of a request is the request with its lists in normal form: the entries that are read
from each of their entries (`parse_eq_ok_normalized`). A filter is kept or narrowed by this unless it has entries but
none in normal form, or one that is cut into others (`wanted_after_parse`). -/

namespace ClusterMetrics.Request
variable {r : Request}

/-! ### Normal forms of lists -/

/-- The entries that are read from each of `entries`. -/
def normalForm (entries : List String) : List String := entries.flatMap readList

theorem isEntry_of_mem_normalForm {entries : List String} {e : String} (h : e ∈ normalForm entries) :
    Text.IsEntry e.toList := by
  obtain ⟨value, -, h⟩ := List.mem_flatMap.1 h
  obtain ⟨cs, hcs, rfl⟩ := List.mem_map.1 h
  rw [String.toList_ofList]
  exact Text.isEntry_of_mem_commaList hcs

@[simp] theorem normalForm_nil : normalForm [] = [] := rfl

theorem normalForm_eq_self {entries : List String} (h : ∀ e ∈ entries, Text.IsEntry e.toList) :
    normalForm entries = entries := by
  have hread : ∀ value ∈ entries, readList value = [value] := fun _ he => by
    rw [readList, Text.commaList_of_isEntry (h _ he), List.map_singleton, String.ofList_toList]
  rw [normalForm, List.flatMap_congr hread, List.flatMap_singleton']

theorem normalForm_eq_self_iff {entries : List String} :
    normalForm entries = entries ↔ ∀ e ∈ entries, Text.IsEntry e.toList :=
  ⟨fun h _ he => isEntry_of_mem_normalForm (h.symm ▸ he), normalForm_eq_self⟩

theorem normalForm_normalForm (entries : List String) : normalForm (normalForm entries) = normalForm entries :=
  normalForm_eq_self fun _ => isEntry_of_mem_normalForm

theorem readList_intercalate (entries : List String) : readList (",".intercalate entries) = normalForm entries := by
  rw [readList, String.toList_intercalate]
  have hcomma : ",".toList = [','] := rfl
  rw [hcomma, Text.commaList_intercalate, List.flatMap_map, List.map_flatMap]
  rfl

/-- The request with its lists in normal form. -/
def normalized (r : Request) : Request := { r with hosts := normalForm r.hosts, disks := normalForm r.disks }

theorem normalized_normalized (r : Request) : r.normalized.normalized = r.normalized := by
  simp only [normalized, normalForm_normalForm]

theorem normalized_eq_self_iff : r.normalized = r ↔ ∀ e ∈ r.hosts ++ r.disks, Text.IsEntry e.toList := by
  have hlists : r.normalized = r ↔ normalForm r.hosts = r.hosts ∧ normalForm r.disks = r.disks := by
    constructor
    · exact fun h => ⟨congrArg hosts h, congrArg disks h⟩
    · rintro ⟨hhosts, hdisks⟩
      rw [normalized, hhosts, hdisks]
  rw [hlists, normalForm_eq_self_iff, normalForm_eq_self_iff]
  simp only [List.mem_append, or_imp, forall_and]

/-! ### Pairs -/

theorem readWord?_decimal (n : UInt32) : readWord? (String.ofList (Text.decimal n.toNat)) = some n := by
  have hread : Text.readDecimalBelow? 0x100000000 (Text.decimal n.toNat) = some n.toNat :=
    Text.readDecimalBelow?_decimal n.toNat_lt
  unfold readWord?
  rw [String.toList_ofList]
  split
  next cs heq => exact absurd (Text.isDigit_of_mem_decimal (heq ▸ List.mem_cons_self)) (by decide)
  next =>
    dsimp only
    rw [hread, Option.map_some, UInt32.ofNat_toNat]

theorem foldlM_append_eq_ok (s' : Request) {s s'' : Request} {xs ys : List (String × String)}
    (hxs : xs.foldlM withPair s = .ok s') (hys : ys.foldlM withPair s' = .ok s'') :
    (xs ++ ys).foldlM withPair s = .ok s'' := by
  rw [List.foldlM_append, hxs]
  exact hys

/-- A pair that is left out where it would change nothing. -/
theorem foldlM_ite_eq_ok {s s' : Request} {pair : String × String} {p : Prop} [Decidable p]
    (h : p → withPair s pair = .ok s') (hp : ¬ p → s = s') : (if p then [pair] else []).foldlM withPair s = .ok s' := by
  split
  next hyes => rw [List.foldlM_cons, h hyes]; rfl
  next hnot => rw [List.foldlM_nil, hp hnot]; rfl

theorem foldlM_ite_not_eq_ok {s s' : Request} {pair : String × String} {p : Prop} [Decidable p]
    (h : withPair s pair = .ok s') (hp : p → s = s') : (if p then [] else [pair]).foldlM withPair s = .ok s' := by
  rw [← ite_not]
  exact foldlM_ite_eq_ok (fun _ => h) fun hnot => hp (not_not.1 hnot)

theorem withPair_types (s : Request) (types : CategoryMask) :
    withPair s ("types", String.ofList (Text.decimal types.bits.toNat)) = .ok { s with types } := by
  have hread : orInvalidNumber "types" (String.ofList (Text.decimal types.bits.toNat)) = .ok types.bits := by
    rw [orInvalidNumber, readWord?_decimal]
  calc withPair s ("types", String.ofList (Text.decimal types.bits.toNat))
      = (orInvalidNumber "types" _).map fun bits => { s with types := ⟨bits⟩ } := rfl
    _ = .ok { s with types } := by rw [hread]; rfl

theorem withPair_samples (s : Request) (samples : UInt32) :
    withPair s ("n", String.ofList (Text.decimal samples.toNat)) = .ok { s with samples } := by
  have hread : orInvalidNumber "n" (String.ofList (Text.decimal samples.toNat)) = .ok samples := by
    rw [orInvalidNumber, readWord?_decimal]
  calc withPair s ("n", String.ofList (Text.decimal samples.toNat))
      = (orInvalidNumber "n" _).map fun samples => { s with samples } := rfl
    _ = .ok { s with samples } := by rw [hread]; rfl

theorem withPair_interval (s : Request) (interval : Duration) :
    withPair s ("interval", interval.format) = .ok { s with interval } := by
  calc withPair s ("interval", interval.format)
      = ((Duration.parse interval.format).mapError QueryError.invalidInterval).map fun interval => { s with interval } := rfl
    _ = .ok { s with interval } := by rw [Duration.parse_format]; rfl

theorem withPair_byHost (s : Request) : withPair s ("by-host", "true") = .ok { s with byHost := true } := rfl

theorem withPair_byDisk (s : Request) : withPair s ("by-disk", "true") = .ok { s with byDisk := true } := rfl

theorem withPair_hosts (s : Request) (hosts : List String) :
    withPair s ("hosts", ",".intercalate hosts) = .ok { s with hosts := normalForm hosts } := by
  rw [← readList_intercalate]
  rfl

theorem withPair_disks (s : Request) (disks : List String) :
    withPair s ("disks", ",".intercalate disks) = .ok { s with disks := normalForm disks } := by
  rw [← readList_intercalate]
  rfl

theorem ofPairs_queryPairs (r : Request) : ofPairs r.queryPairs = .ok r.normalized := by
  have hhosts : r.hosts.isEmpty = true → normalForm r.hosts = [] := fun h => by rw [List.isEmpty_iff.1 h, normalForm_nil]
  have hdisks : r.disks.isEmpty = true → normalForm r.disks = [] := fun h => by rw [List.isEmpty_iff.1 h, normalForm_nil]
  unfold ofPairs queryPairs
  -- The last pair first: what is read before a pair has the fields from that pair on at their defaults.
  refine foldlM_append_eq_ok ⟨r.types, r.samples, r.interval, normalForm r.hosts, r.byHost, normalForm r.disks,
    r.byDisk, r.jobId, ""⟩ ?_ (foldlM_ite_not_eq_ok rfl fun h => by rw [← String.isEmpty_iff.1 h]; rfl)
  refine foldlM_append_eq_ok ⟨r.types, r.samples, r.interval, normalForm r.hosts, r.byHost, normalForm r.disks,
    r.byDisk, "", ""⟩ ?_ (foldlM_ite_not_eq_ok rfl fun h => by rw [String.isEmpty_iff.1 h])
  refine foldlM_append_eq_ok ⟨r.types, r.samples, r.interval, normalForm r.hosts, r.byHost, normalForm r.disks,
    false, "", ""⟩ ?_ (foldlM_ite_eq_ok (fun h => by rw [withPair_byDisk, h]) fun h => by rw [Bool.eq_false_iff.2 h])
  refine foldlM_append_eq_ok ⟨r.types, r.samples, r.interval, normalForm r.hosts, r.byHost, [], false, "", ""⟩ ?_
    (foldlM_ite_not_eq_ok (withPair_disks ..) fun h => by rw [hdisks h])
  refine foldlM_append_eq_ok ⟨r.types, r.samples, r.interval, normalForm r.hosts, false, [], false, "", ""⟩ ?_
    (foldlM_ite_eq_ok (fun h => by rw [withPair_byHost, h]) fun h => by rw [Bool.eq_false_iff.2 h])
  refine foldlM_append_eq_ok ⟨r.types, r.samples, r.interval, [], false, [], false, "", ""⟩ ?_
    (foldlM_ite_not_eq_ok (withPair_hosts ..) fun h => by rw [hhosts h])
  calc [_, _, _].foldlM withPair default
      = [_, _].foldlM withPair { default with types := r.types } := by rw [List.foldlM_cons, withPair_types]; rfl
    _ = [_].foldlM withPair { default with types := r.types, samples := r.samples } := by
        rw [List.foldlM_cons, withPair_samples]; rfl
    _ = .ok { default with types := r.types, samples := r.samples, interval := r.interval } := by
        rw [List.foldlM_cons, withPair_interval]; rfl

/-! ### Query strings -/

theorem exists_queryString_eq (r : Request) : ∃ cs, r.queryString.toList = 't' :: cs := by
  have hkey : Form.encodeText "types" = ['t', 'y', 'p', 'e', 's'] := by decide +kernel
  have hfirst : ∃ p ps, r.queryPairs = ("types", p) :: ps := ⟨_, _, rfl⟩
  obtain ⟨p, ps, hpairs⟩ := hfirst
  rw [queryString, hpairs, Form.encode, String.toList_ofList, List.map_cons]
  dsimp only
  rw [hkey]
  cases ps with
  | nil => exact ⟨_, rfl⟩
  | cons => exact ⟨_, rfl⟩

theorem parse_queryString (r : Request) : parse r.queryString = .ok r.normalized := by
  obtain ⟨cs, hcs⟩ := r.exists_queryString_eq
  have hpairs := Form.decode_encode r.queryPairs
  rw [← queryString, hcs] at hpairs
  rw [parse, hcs]
  exact (congrArg ofPairs hpairs).trans r.ofPairs_queryPairs

theorem parse_questionMark_queryString (r : Request) : parse ("?" ++ r.queryString) = .ok r.normalized := by
  have hchars : ("?" ++ r.queryString).toList = '?' :: r.queryString.toList := by
    rw [String.toList_append]
    rfl
  rw [parse, hchars]
  exact (congrArg ofPairs (Form.decode_encode r.queryPairs)).trans r.ofPairs_queryPairs

theorem parse_eq_ok_normalized (r : Request) :
    parse r.queryString = .ok r.normalized ∧ parse ("?" ++ r.queryString) = .ok r.normalized ∧
      (parse r.queryString = .ok r ↔ ∀ e ∈ r.hosts ++ r.disks, Text.IsEntry e.toList) ∧
      parse r.normalized.queryString = .ok r.normalized := by
  refine ⟨r.parse_queryString, r.parse_questionMark_queryString, ?_, ?_⟩
  · rw [parse_queryString, Except.ok.injEq, normalized_eq_self_iff]
  · rw [parse_queryString, normalized_normalized]

/-! ### Filters -/

/-- A filter lets only texts through that another one lets through. -/
theorem forall_wanted_iff {sent kept : List String} :
    (∀ x, (kept.isEmpty || kept.contains x) = true → (sent.isEmpty || sent.contains x) = true) ↔
      sent = [] ∨ kept ≠ [] ∧ kept ⊆ sent := by
  simp only [Bool.or_eq_true, List.isEmpty_iff, List.contains_iff_mem]
  constructor
  · intro h
    by_cases hsent : sent = []
    · exact .inl hsent
    have : Infinite String := .of_injective String.ofList fun _ _ => String.ofList_injective
    obtain ⟨x, hx⟩ := Infinite.exists_notMem_finset sent.toFinset
    refine .inr ⟨fun hkept => ?_, fun x hx => (h x (.inr hx)).resolve_left hsent⟩
    exact hx (List.mem_toFinset.2 ((h x (.inl hkept)).resolve_left hsent))
  · rintro (hsent | ⟨hkept, hsub⟩) x hx
    · exact .inl hsent
    · exact .inr (hsub (hx.resolve_left hkept))

/-- After a request was sent no host is wanted that was not wanted before, exactly if its filter is empty or has entries
in normal form, all of them its own; and so for drives. -/
theorem wanted_after_parse (r : Request) : ∃ r', parse r.queryString = .ok r' ∧
    ((∀ host, r'.wantsHost host = true → r.wantsHost host = true) ↔
      r.hosts = [] ∨ normalForm r.hosts ≠ [] ∧ normalForm r.hosts ⊆ r.hosts) ∧
    ((∀ disk, r'.wantsDisk disk = true → r.wantsDisk disk = true) ↔
      r.disks = [] ∨ normalForm r.disks ≠ [] ∧ normalForm r.disks ⊆ r.disks) :=
  ⟨r.normalized, r.parse_queryString, forall_wanted_iff, forall_wanted_iff⟩

/-- A filter whose one entry is empty is read as no filter. -/
theorem wantsHost_after_emptyEntry :
    ∃ r', parse { default with hosts := [""] }.queryString = .ok r' ∧ r'.wantsHost "node" = true ∧
      wantsHost { default with hosts := [""] } "node" = false :=
  ⟨_, parse_queryString _, by decide +kernel, by decide +kernel⟩

end ClusterMetrics.Request
