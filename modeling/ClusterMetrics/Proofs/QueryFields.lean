import ClusterMetrics.Proofs.CommaLists
import ClusterMetrics.Proofs.DurationGrammar
import ClusterMetrics.Proofs.Readings
import ClusterMetrics.Request.Query

/-! # Every option is decided by its own key

Pairs are read exactly if each of them is well-formed; otherwise the first one that is not gives the error, which shows
its value. An option is then what the last value with its key says, or at its default if there is none. So unknown keys
have no say, and only the order of pairs with equal keys counts (`Request.ofPairs_decides`). -/

namespace ClusterMetrics.Request
variable {r s : Request} {pairs : List (String × String)} {p : String × String} {value : String} {e : QueryError}

/-! ### What values say -/

/-- A number of 32 bits in decimal; one plus sign may stand in front. -/
def IsWord (value : String) (n : UInt32) : Prop :=
  ∃ ds, (value.toList = ds ∨ value.toList = '+' :: ds) ∧ Text.IsDigits ds ∧ Nat.ofDigitChars 10 ds 0 = n.toNat

/-- A word for yes or no in any case; no word says no. -/
def IsFlag (value : String) (b : Bool) : Prop :=
  (b = true ∧ Text.EqIgnoringCase value.toList "true".toList) ∨
    (b = false ∧ (value = "" ∨ Text.EqIgnoringCase value.toList "false".toList))

/-- A duration, maybe with blanks at its ends. -/
def IsSpan (value : String) (d : Duration) : Prop := Duration.Denotes (Text.trim value.toList) d.nanoseconds

theorem readDecimalBelow?_eq_some_iff {ds : List Char} {n : UInt32} :
    (Text.readDecimalBelow? 0x100000000 ds).map UInt32.ofNat = some n ↔
      Text.IsDigits ds ∧ Nat.ofDigitChars 10 ds 0 = n.toNat := by
  simp only [Text.readDecimalBelow?, Option.map_eq_some_iff, Option.filter_eq_some_iff, Text.readDecimal?_eq_some_iff,
    decide_eq_true_eq]
  constructor
  · rintro ⟨k, ⟨⟨hds, rfl⟩, hlt⟩, rfl⟩
    exact ⟨hds, (UInt32.toNat_ofNat_of_lt' hlt).symm⟩
  · rintro ⟨hds, hn⟩
    exact ⟨n.toNat, ⟨⟨hds, hn⟩, n.toNat_lt⟩, UInt32.ofNat_toNat⟩

theorem plus_notMem_of_isDigits {ds : List Char} (h : Text.IsDigits ds) : '+' ∉ ds := fun hmem =>
  absurd (h.2 _ hmem) (by decide)

theorem readWord?_eq_some_iff {n : UInt32} : readWord? value = some n ↔ IsWord value n := by
  unfold readWord? IsWord
  split
  next cs heq =>
    rw [readDecimalBelow?_eq_some_iff, heq]
    constructor
    · exact fun h => ⟨cs, .inr rfl, h⟩
    · rintro ⟨ds, rfl | hcs, hds, hn⟩
      · exact absurd List.mem_cons_self (plus_notMem_of_isDigits hds)
      · rw [(List.cons.inj hcs).2]
        exact ⟨hds, hn⟩
  next hplus =>
    rw [readDecimalBelow?_eq_some_iff]
    constructor
    · exact fun h => ⟨_, .inl rfl, h⟩
    · rintro ⟨ds, rfl | hcs, hds, hn⟩
      · exact ⟨hds, hn⟩
      · exact absurd hcs (hplus ds)

theorem ofList_toLowerAscii_eq_empty_iff : String.ofList (Text.toLowerAscii value.toList) = "" ↔ value = "" := by
  rw [Text.ofList_toLowerAscii_eq_iff rfl, Text.EqIgnoringCase, ← String.toList_inj]
  exact List.map_eq_nil_iff

theorem readBool?_eq_some_iff {b : Bool} : readBool? value = some b ↔ IsFlag value b := by
  have htrue : Text.toLowerAscii "true".toList = "true".toList := by decide
  have hfalse : Text.toLowerAscii "false".toList = "false".toList := by decide
  unfold readBool? IsFlag
  simp only [Text.ofList_toLowerAscii_eq_iff htrue, Text.ofList_toLowerAscii_eq_iff hfalse,
    ofList_toLowerAscii_eq_empty_iff]
  split
  next hyes =>
    have hno : ¬ (value = "" ∨ Text.EqIgnoringCase value.toList "false".toList) := by
      rintro (rfl | hno)
      · exact absurd hyes (by decide)
      · exact absurd (hyes.symm.trans hno) (by decide)
    rw [and_iff_left hyes, or_iff_left fun h => hno h.2, Option.some_inj, eq_comm]
  next hyes =>
  split
  next hno => rw [or_iff_right (a := b = true ∧ _) fun h => hyes h.2, and_iff_left hno, Option.some_inj, eq_comm]
  next hno => exact iff_of_false nofun fun h => h.elim (hyes ·.2) (hno ·.2)

/-! ### Options and their keys -/

/-- The options that pairs set. -/
inductive Field where
  | types | samples | interval | hosts | byHost | disks | byDisk | jobId | deploymentId
deriving DecidableEq

namespace Field

def all : List Field := [types, samples, interval, hosts, byHost, disks, byDisk, jobId, deploymentId]

theorem mem_all (f : Field) : f ∈ all := by cases f <;> decide

def key : Field → String
  | types => "types"
  | samples => "n"
  | interval => "interval"
  | hosts => "hosts"
  | byHost => "by-host"
  | disks => "disks"
  | byDisk => "by-disk"
  | jobId => "by-jobID"
  | deploymentId => "by-depID"

def ofKey? (key : String) : Option Field := all.find? (·.key == key)

theorem ofKey?_key (f : Field) : ofKey? f.key = some f := by cases f <;> rfl

theorem key_injective : Function.Injective key := by
  intro f g h
  rw [← Option.some_inj, ← ofKey?_key f, h, ofKey?_key]

abbrev Value : Field → Type
  | types => CategoryMask
  | samples => UInt32
  | interval => Duration
  | hosts | disks => List String
  | byHost | byDisk => Bool
  | jobId | deploymentId => String

/-- The option in a request. -/
def get (r : Request) : (f : Field) → f.Value
  | types => r.types
  | samples => r.samples
  | interval => r.interval
  | hosts => r.hosts
  | byHost => r.byHost
  | disks => r.disks
  | byDisk => r.byDisk
  | jobId => r.jobId
  | deploymentId => r.deploymentId

def set (r : Request) : (f : Field) → f.Value → Request
  | types, v => { r with types := v }
  | samples, v => { r with samples := v }
  | interval, v => { r with interval := v }
  | hosts, v => { r with hosts := v }
  | byHost, v => { r with byHost := v }
  | disks, v => { r with disks := v }
  | byDisk, v => { r with byDisk := v }
  | jobId, v => { r with jobId := v }
  | deploymentId, v => { r with deploymentId := v }

theorem get_set_self (r : Request) (f : Field) (v : f.Value) : f.get (f.set r v) = v := by cases f <;> rfl

theorem get_set_of_ne {f g : Field} (h : f ≠ g) (r : Request) (v : f.Value) : g.get (f.set r v) = g.get r := by
  cases f <;> cases g <;> trivial

theorem ext_get (h : ∀ f : Field, f.get r = f.get s) : r = s := by
  obtain ⟨⟩ := r
  obtain ⟨⟩ := s
  congr
  exacts [h types, h samples, h interval, h hosts, h byHost, h disks, h byDisk, h jobId, h deploymentId]

/-- What a value says that comes with the key of the option. -/
def Says (value : String) : (f : Field) → f.Value → Prop
  | types, v => IsWord value v.bits
  | samples, v => IsWord value v
  | interval, v => IsSpan value v
  | hosts, v | disks, v => v = readList value
  | byHost, v | byDisk, v => IsFlag value v
  | jobId, v | deploymentId, v => v = value

end Field

/-! ### Single pairs -/

/-- A pair whose value has the form that its key asks for. -/
def WellFormed (p : String × String) : Prop :=
  (p.1 ∈ ["types", "n"] → ∃ n, IsWord p.2 n) ∧ (p.1 = "interval" → ∃ d, IsSpan p.2 d) ∧
    (p.1 ∈ ["by-host", "by-disk"] → ∃ b, IsFlag p.2 b)

/-- The error of a pair that is not well-formed. -/
inductive Refused : String × String → QueryError → Prop
  | number {key value : String} (hkey : key ∈ ["types", "n"]) : Refused (key, value) (.invalidNumber key value)
  | flag {key value : String} (hkey : key ∈ ["by-host", "by-disk"]) : Refused (key, value) (.invalidBool key value)
  | span {value : String} {fault : Duration.Fault} (h : Duration.parse value = .error ⟨value, fault⟩) :
      Refused ("interval", value) (.invalidInterval ⟨value, fault⟩)

theorem orInvalidNumber_eq (key value : String) :
    orInvalidNumber key value = (readWord? value).elim (.error (.invalidNumber key value)) .ok := by
  unfold orInvalidNumber
  cases readWord? value <;> rfl

theorem orInvalidNumber_eq_ok_iff {key : String} {n : UInt32} :
    orInvalidNumber key value = .ok n ↔ IsWord value n := by
  rw [orInvalidNumber_eq, Except.elim_eq_ok_iff, readWord?_eq_some_iff]

theorem orInvalidNumber_eq_error_iff {key : String} : orInvalidNumber key value = .error e ↔
    (¬ ∃ n, IsWord value n) ∧ e = .invalidNumber key value := by
  simp only [orInvalidNumber_eq, Except.elim_eq_error_iff, readWord?_eq_some_iff]

theorem orInvalidBool_eq (key value : String) :
    orInvalidBool key value = (readBool? value).elim (.error (.invalidBool key value)) .ok := by
  unfold orInvalidBool
  cases readBool? value <;> rfl

theorem orInvalidBool_eq_ok_iff {key : String} {b : Bool} : orInvalidBool key value = .ok b ↔ IsFlag value b := by
  rw [orInvalidBool_eq, Except.elim_eq_ok_iff, readBool?_eq_some_iff]

theorem orInvalidBool_eq_error_iff {key : String} : orInvalidBool key value = .error e ↔
    (¬ ∃ b, IsFlag value b) ∧ e = .invalidBool key value := by
  simp only [orInvalidBool_eq, Except.elim_eq_error_iff, readBool?_eq_some_iff]

theorem duration_parse_eq_ok_iff {d : Duration} : Duration.parse value = .ok d ↔ IsSpan value d :=
  Duration.parse_eq_ok_iff.trans ⟨Duration.denotes_of_ofChars, Duration.ofChars_of_denotes⟩

namespace Field

/-- The option as it is read from a value with its key. -/
def read (value : String) : (f : Field) → Except QueryError f.Value
  | types => (orInvalidNumber "types" value).map CategoryMask.mk
  | samples => orInvalidNumber "n" value
  | interval => (Duration.parse value).mapError .invalidInterval
  | hosts | disks => .ok (readList value)
  | byHost => orInvalidBool "by-host" value
  | byDisk => orInvalidBool "by-disk" value
  | jobId | deploymentId => .ok value

theorem read_eq_ok_iff {f : Field} {v : f.Value} : f.read value = .ok v ↔ f.Says value v := by
  cases f with
  | types =>
    refine Except.map_eq_ok_iff.trans ?_
    simp only [orInvalidNumber_eq_ok_iff]
    exact ⟨fun ⟨n, hn, heq⟩ => heq ▸ hn, fun h => ⟨v.bits, h, rfl⟩⟩
  | samples => exact orInvalidNumber_eq_ok_iff
  | interval =>
    refine Iff.trans ?_ duration_parse_eq_ok_iff
    unfold read
    cases Duration.parse value with
    | error fault => exact iff_of_false nofun nofun
    | ok d => exact ⟨fun h => congrArg Except.ok (Except.ok.inj h), fun h => congrArg Except.ok (Except.ok.inj h)⟩
  | byHost | byDisk => exact orInvalidBool_eq_ok_iff
  | hosts | disks | jobId | deploymentId =>
    exact ⟨fun h => (Except.ok.inj h).symm, fun h => congrArg Except.ok h.symm⟩

/-- Whatever the value says is all it says. -/
theorem says_unique {f : Field} {v w : f.Value} (hv : f.Says value v) (hw : f.Says value w) : v = w :=
  Except.ok.inj ((read_eq_ok_iff.2 hv).symm.trans (read_eq_ok_iff.2 hw))

theorem wellFormed_iff : WellFormed p ↔ ∀ f : Field, f.key = p.1 → ∃ v, f.Says p.2 v := by
  obtain ⟨key, value⟩ := p
  unfold WellFormed
  dsimp only
  constructor
  · rintro ⟨hword, hspan, hflag⟩ f rfl
    cases f with
    | types =>
      obtain ⟨n, hn⟩ := hword (by decide)
      exact ⟨⟨n⟩, hn⟩
    | samples => exact hword (by decide)
    | interval => exact hspan rfl
    | byHost | byDisk => exact hflag (by decide)
    | hosts | disks | jobId | deploymentId => exact ⟨_, rfl⟩
  · intro h
    refine ⟨fun hkey => ?_, ?_, fun hkey => ?_⟩
    · rcases List.mem_pair.1 hkey with rfl | rfl
      · obtain ⟨v, hv⟩ := h .types rfl
        exact ⟨v.bits, hv⟩
      · exact h .samples rfl
    · rintro rfl
      exact h .interval rfl
    · rcases List.mem_pair.1 hkey with rfl | rfl
      · exact h .byHost rfl
      · exact h .byDisk rfl

theorem refused_of_read {f : Field} (h : f.read value = .error e) : Refused (f.key, value) e := by
  cases f with
  | types =>
    obtain ⟨-, rfl⟩ := orInvalidNumber_eq_error_iff.1 (Except.map_eq_error_iff.1 h)
    exact .number (by decide)
  | samples =>
    obtain ⟨-, rfl⟩ := orInvalidNumber_eq_error_iff.1 h
    exact .number (by decide)
  | interval =>
    unfold read at h
    cases hparse : Duration.parse value with
    | ok d =>
      rw [hparse] at h
      cases h
    | error fault =>
      obtain ⟨cause, hcause⟩ := Duration.exists_fault fun d hd => by cases hparse.symm.trans hd
      rw [hcause] at h
      cases h
      exact .span hcause
  | byHost =>
    obtain ⟨-, rfl⟩ := orInvalidBool_eq_error_iff.1 h
    exact .flag (by decide)
  | byDisk =>
    obtain ⟨-, rfl⟩ := orInvalidBool_eq_error_iff.1 h
    exact .flag (by decide)
  | hosts | disks | jobId | deploymentId => cases h

end Field

theorem Refused.unique {e' : QueryError} (h : Refused p e) (h' : Refused p e') : e = e' := by
  have hdisjoint : ∀ {key : String}, key ∈ ["types", "n"] → key ∉ ["by-host", "by-disk"] := by
    intro key hkey
    rcases List.mem_pair.1 hkey with rfl | rfl <;> decide
  cases h with
  | number hkey =>
    cases h' with
    | number => rfl
    | flag hkey' => exact absurd hkey' (hdisjoint hkey)
    | span => exact absurd hkey (by decide)
  | flag hkey =>
    cases h' with
    | number hkey' => exact absurd hkey (hdisjoint hkey')
    | flag => rfl
    | span => exact absurd hkey (by decide)
  | span h =>
    cases h' with
    | number hkey => exact absurd hkey (by decide)
    | flag hkey => exact absurd hkey (by decide)
    | span h' => rw [Except.error.inj (h.symm.trans h')]

theorem withPair_key (r : Request) (f : Field) (value : String) :
    withPair r (f.key, value) = (f.read value).map (f.set r) := by
  cases f with
  | types =>
    show (orInvalidNumber "types" value).map _ = ((orInvalidNumber "types" value).map _).map _
    cases orInvalidNumber "types" value <;> rfl
  | samples | interval | hosts | disks | byHost | byDisk | jobId | deploymentId => rfl

theorem withPair_unknown (r : Request) (h : ∀ f : Field, p.1 ≠ f.key) : withPair r p = .ok r := by
  obtain ⟨key, value⟩ := p
  unfold withPair
  dsimp only
  split
  exacts [absurd rfl (h .types), absurd rfl (h .samples), absurd rfl (h .interval), absurd rfl (h .hosts),
    absurd rfl (h .disks), absurd rfl (h .byHost), absurd rfl (h .byDisk), absurd rfl (h .jobId),
    absurd rfl (h .deploymentId), rfl]

/-! ### What a pair sets -/

/-- An option and what it is set to, if the key is known. -/
abbrev Setting := Option ((f : Field) × f.Value)

def readPair (p : String × String) : Except QueryError Setting :=
  match Field.ofKey? p.1 with
  | some f => (f.read p.2).map fun v => some ⟨f, v⟩
  | none => .ok none

def apply (r : Request) : Setting → Request
  | some ⟨f, v⟩ => f.set r v
  | none => r

/-- The key of a pair is that of an option, or unknown. -/
theorem key_cases (key : String) :
    (∃ f : Field, key = f.key ∧ Field.ofKey? key = some f) ∨ (∀ f : Field, key ≠ f.key) ∧ Field.ofKey? key = none := by
  cases h : Field.ofKey? key with
  | some f =>
    have hkey : (f.key == key) = true := List.find?_some (p := fun g : Field => g.key == key) h
    exact .inl ⟨f, (beq_iff_eq.1 hkey).symm, rfl⟩
  | none =>
    refine .inr ⟨fun f heq => ?_, rfl⟩
    rw [heq, Field.ofKey?_key] at h
    cases h

theorem withPair_eq (r : Request) (p : String × String) : withPair r p = (readPair p).map r.apply := by
  obtain ⟨key, value⟩ := p
  rcases key_cases key with ⟨f, rfl, hf⟩ | ⟨hunknown, hnone⟩
  · rw [withPair_key, readPair, hf]
    dsimp only
    cases f.read value <;> rfl
  · rw [withPair_unknown r hunknown, readPair, hnone]
    rfl

theorem ofPairs_eq (pairs : List (String × String)) :
    ofPairs pairs = (pairs.mapM readPair).map fun settings => settings.foldl apply default := by
  rw [ofPairs, funext₂ withPair_eq, foldlM_eq_map_mapM]

theorem exists_readPair_eq_ok_iff : (∃ x, readPair p = .ok x) ↔ WellFormed p := by
  rw [Field.wellFormed_iff, readPair]
  rcases key_cases p.1 with ⟨f, hkey, hf⟩ | ⟨hunknown, hnone⟩
  · rw [hf]
    dsimp only
    simp only [Except.map_eq_ok_iff, Field.read_eq_ok_iff]
    constructor
    · rintro ⟨-, v, hv, -⟩ g hg
      cases Field.key_injective (hg.trans hkey)
      exact ⟨v, hv⟩
    · intro h
      obtain ⟨v, hv⟩ := h f hkey.symm
      exact ⟨_, v, hv, rfl⟩
  · rw [hnone]
    exact iff_of_true ⟨none, rfl⟩ fun f hf => absurd hf.symm (hunknown f)

theorem refused_of_readPair (h : readPair p = .error e) : Refused p e := by
  obtain ⟨key, value⟩ := p
  rw [readPair] at h
  rcases key_cases key with ⟨f, rfl, hf⟩ | ⟨-, hnone⟩
  · rw [hf] at h
    exact Field.refused_of_read (Except.map_eq_error_iff.1 h)
  · rw [hnone] at h
    cases h

theorem readPair_eq_error_iff : readPair p = .error e ↔ ¬ WellFormed p ∧ Refused p e := by
  rw [← exists_readPair_eq_ok_iff]
  constructor
  · intro h
    refine ⟨fun ⟨x, hx⟩ => ?_, refused_of_readPair h⟩
    cases h.symm.trans hx
  · rintro ⟨hnot, hrefused⟩
    cases h : readPair p with
    | ok x => exact absurd ⟨x, h⟩ hnot
    | error e' => rw [(refused_of_readPair h).unique hrefused]

theorem says_of_readPair {f : Field} {x : Setting} (h : readPair p = .ok x) (hkey : p.1 = f.key) (r : Request) :
    f.Says p.2 (f.get (r.apply x)) := by
  rw [readPair, hkey, Field.ofKey?_key] at h
  obtain ⟨v, hv, rfl⟩ := Except.map_eq_ok_iff.1 h
  rw [apply, Field.get_set_self]
  exact Field.read_eq_ok_iff.1 hv

theorem get_of_readPair {f : Field} {x : Setting} (h : readPair p = .ok x) (hkey : p.1 ≠ f.key) (r : Request) :
    f.get (r.apply x) = f.get r := by
  rw [readPair] at h
  rcases key_cases p.1 with ⟨g, hg, hfound⟩ | ⟨-, hnone⟩
  · rw [hfound] at h
    obtain ⟨v, -, rfl⟩ := Except.map_eq_ok_iff.1 h
    exact Field.get_set_of_ne (fun heq : g = f => hkey (heq ▸ hg)) r v
  · rw [hnone] at h
    cases h
    rfl

/-! ### What all pairs set -/

/-- The value of the last pair with the key. -/
def lastValue? (key : String) (pairs : List (String × String)) : Option String :=
  (pairs.filter (·.1 = key)).getLast?.map (·.2)

/-- Every option is what the last value with its key says, or as it was before if no pair has its key. -/
def Decides (pairs : List (String × String)) (before after : Request) : Prop :=
  ∀ f : Field, match lastValue? f.key pairs with
    | some value => f.Says value (f.get after)
    | none => f.get after = f.get before

theorem lastValue?_cons (key : String) (p : String × String) (pairs : List (String × String)) :
    lastValue? key (p :: pairs) = (lastValue? key pairs).or (if p.1 = key then some p.2 else none) := by
  unfold lastValue?
  by_cases h : p.1 = key
  · rw [List.filter_cons, if_pos (decide_eq_true h), if_pos h, List.getLast?_cons]
    cases (pairs.filter (·.1 = key)).getLast? <;> rfl
  · rw [List.filter_cons, if_neg (mt of_decide_eq_true h), if_neg h, Option.or_none]

theorem Decides.unique {after after' : Request} (h : Decides pairs r after) (h' : Decides pairs r after') :
    after = after' := by
  refine Field.ext_get fun f => ?_
  have hf := h f
  have hf' := h' f
  cases hlast : lastValue? f.key pairs with
  | some value =>
    rw [hlast] at hf hf'
    exact Field.says_unique hf hf'
  | none =>
    rw [hlast] at hf hf'
    exact hf.trans hf'.symm

theorem Decides.cons {x : Setting} (hp : readPair p = .ok x) (h : Decides pairs (r.apply x) s) :
    Decides (p :: pairs) r s := by
  intro f
  have hf := h f
  rw [lastValue?_cons]
  cases hlast : lastValue? f.key pairs with
  | some value =>
    rw [hlast] at hf
    exact hf
  | none =>
    rw [hlast] at hf
    dsimp only at hf
    rw [Option.none_or, hf]
    by_cases hkey : p.1 = f.key
    · rw [if_pos hkey]
      exact says_of_readPair hp hkey r
    · rw [if_neg hkey]
      exact get_of_readPair hp hkey r

theorem decides_foldl {settings : List Setting} (h : List.Forall₂ (fun p x => readPair p = .ok x) pairs settings)
    (r : Request) : Decides pairs r (settings.foldl apply r) := by
  induction h generalizing r with
  | nil => exact fun f => rfl
  | cons hp _ ih => exact (ih _).cons hp

theorem exists_ofPairs_eq_ok_iff : (∃ r, ofPairs pairs = .ok r) ↔ ∀ p ∈ pairs, WellFormed p := by
  simp only [ofPairs_eq, Except.map_eq_ok_iff, ← exists_readPair_eq_ok_iff]
  rw [← exists_mapM_eq_ok_iff]
  exact ⟨fun ⟨_, settings, h, _⟩ => ⟨settings, h⟩, fun ⟨settings, h⟩ => ⟨_, settings, h, rfl⟩⟩

theorem decides_of_ofPairs (h : ofPairs pairs = .ok r) : Decides pairs default r := by
  rw [ofPairs_eq] at h
  obtain ⟨settings, hread, rfl⟩ := Except.map_eq_ok_iff.1 h
  exact decides_foldl (mapM_eq_ok_iff.1 hread) default

theorem ofPairs_eq_ok_iff : ofPairs pairs = .ok r ↔ (∀ p ∈ pairs, WellFormed p) ∧ Decides pairs default r := by
  constructor
  · exact fun h => ⟨exists_ofPairs_eq_ok_iff.1 ⟨r, h⟩, decides_of_ofPairs h⟩
  · rintro ⟨hformed, hdecides⟩
    obtain ⟨s, hs⟩ := exists_ofPairs_eq_ok_iff.2 hformed
    rw [hs, (decides_of_ofPairs hs).unique hdecides]

theorem ofPairs_eq_error_iff : ofPairs pairs = .error e ↔ ∃ before p after, pairs = before ++ p :: after ∧
    (∀ q ∈ before, WellFormed q) ∧ ¬ WellFormed p ∧ Refused p e := by
  simp only [ofPairs_eq, Except.map_eq_error_iff, mapM_eq_error_iff, exists_readPair_eq_ok_iff, readPair_eq_error_iff]

/-! ### Other keys and other orders -/

/-- The keys of the options. -/
def keys : List String := Field.all.map Field.key

theorem ofPairs_filter_keys (pairs : List (String × String)) : ofPairs (pairs.filter (·.1 ∈ keys)) = ofPairs pairs := by
  have hstep : ∀ r p, (if decide (p.1 ∈ keys) = true then withPair r p else .ok r) = withPair r p := by
    intro r p
    split
    · rfl
    next hp =>
      refine (withPair_unknown r fun f hf => hp (decide_eq_true ?_)).symm
      exact hf ▸ List.mem_map_of_mem f.mem_all
  rw [ofPairs, ofPairs, List.foldlM_filter]
  exact congrArg (pairs.foldlM · default) (funext₂ hstep)

theorem wellFormed_of_notMem (h : p.1 ∉ keys) : WellFormed p :=
  Field.wellFormed_iff.2 fun f hf => absurd (hf ▸ List.mem_map_of_mem f.mem_all) h

/-- For every key the same values come in the same order. -/
def SameByKey (pairs others : List (String × String)) : Prop :=
  ∀ key ∈ keys, pairs.filter (·.1 = key) = others.filter (·.1 = key)

theorem SameByKey.symm {others : List (String × String)} (h : SameByKey pairs others) : SameByKey others pairs :=
  fun key hkey => (h key hkey).symm

theorem SameByKey.ofPairs_eq_ok {others : List (String × String)} (h : SameByKey pairs others)
    (hr : ofPairs pairs = .ok r) : ofPairs others = .ok r := by
  rw [ofPairs_eq_ok_iff] at hr ⊢
  refine ⟨fun p hp => ?_, fun f => ?_⟩
  · by_cases hkey : p.1 ∈ keys
    · have hmem : p ∈ others.filter (·.1 = p.1) := List.mem_filter.2 ⟨hp, decide_eq_true rfl⟩
      rw [← h p.1 hkey] at hmem
      exact hr.1 p (List.mem_of_mem_filter hmem)
    · exact wellFormed_of_notMem hkey
  · have hf := hr.2 f
    have hlast : lastValue? f.key others = lastValue? f.key pairs := by
      rw [lastValue?, lastValue?, h f.key (List.mem_map_of_mem f.mem_all)]
    rw [hlast]
    exact hf

theorem SameByKey.toOption_ofPairs {others : List (String × String)} (h : SameByKey pairs others) :
    (ofPairs others).toOption = (ofPairs pairs).toOption :=
  Except.toOption_congr fun _ => ⟨h.symm.ofPairs_eq_ok, h.ofPairs_eq_ok⟩

/-- Pairs are read exactly if all are well-formed, also those that are overridden later; the options are then what the
last values with their keys say, and those without a value are at their defaults. Otherwise the error is that of the
first pair that is not well-formed. -/
theorem ofPairs_decides (pairs : List (String × String)) :
    ((∃ r, ofPairs pairs = .ok r) ↔ ∀ p ∈ pairs, WellFormed p) ∧
    (∀ r, ofPairs pairs = .ok r ↔ (∀ p ∈ pairs, WellFormed p) ∧ Decides pairs default r) ∧
    (∀ e, ofPairs pairs = .error e ↔ ∃ before p after, pairs = before ++ p :: after ∧
      (∀ q ∈ before, WellFormed q) ∧ ¬ WellFormed p ∧ Refused p e) ∧
    ofPairs (pairs.filter (·.1 ∈ keys)) = ofPairs pairs ∧
    ∀ others, SameByKey pairs others → (ofPairs others).toOption = (ofPairs pairs).toOption :=
  ⟨exists_ofPairs_eq_ok_iff, fun _ => ofPairs_eq_ok_iff, fun _ => ofPairs_eq_error_iff, ofPairs_filter_keys pairs,
    fun _ h => h.toOption_ofPairs⟩

/-- A number that is overridden, and an unknown key. -/
def overridden : List (String × String) := [("n", "5"), ("color", "red"), ("by-host", "TRUE"), ("n", "+7")]

/-- The flag may come first and the unknown key may change; the number is the last one all the same. -/
theorem ofPairs_overridden :
    SameByKey overridden [("by-host", "TRUE"), ("n", "5"), ("n", "+7"), ("size", "")] ∧
    (ofPairs [("by-host", "TRUE"), ("n", "5"), ("n", "+7"), ("size", "")]).toOption =
      some { default with samples := 7, byHost := true } := by
  have hsame : SameByKey overridden [("by-host", "TRUE"), ("n", "5"), ("n", "+7"), ("size", "")] := by
    unfold SameByKey
    decide +kernel
  have hread : ofPairs overridden = .ok { default with samples := 7, byHost := true } := by decide +kernel
  refine ⟨hsame, ((ofPairs_decides overridden).2.2.2.2 _ hsame).trans ?_⟩
  rw [hread]
  rfl

end ClusterMetrics.Request
