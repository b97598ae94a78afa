import ClusterMetrics.Proofs.ByteOrder
import ClusterMetrics.Proofs.CommaLists
import ClusterMetrics.Proofs.KeyMap
import ClusterMetrics.Proofs.LatencySessions
import ClusterMetrics.Proofs.Readings
import ClusterMetrics.SampleFile

/-! # Files of latency samples, line by line

A file is read line after line, and every line that is not passed over has one sample (`SampleFile.parseByLine_eq`). So
two files with a line feed between them are read as the first and then the second, whose lines are counted on
(`SampleFile.parse_concatenates`). -/

namespace ClusterMetrics

/-! ### Lines -/

namespace Text
variable {sep c : Char} {cs l p : List Char} {ls ps rest : List (List Char)}

/-- The pieces with one more character in front. -/
def pushFirst (c : Char) : List (List Char) → List (List Char)
  | [] => [[c]]
  | p :: ps => (c :: p) :: ps

/-- The lines of a text. Each ends with a line feed, maybe with a carriage return before it; the last one may lack its
end. -/
def lines : List Char → List (List Char)
  | [] => []
  | '\n' :: cs => [] :: lines cs
  | '\r' :: '\n' :: cs => [] :: lines cs
  | c :: cs => pushFirst c (lines cs)

theorem splitOn_cons_self (sep : Char) (cs : List Char) : splitOn sep (sep :: cs) = [] :: splitOn sep cs := if_pos rfl

theorem splitOn_cons_of_ne (h : c ≠ sep) (cs : List Char) : splitOn sep (c :: cs) = pushFirst c (splitOn sep cs) :=
  if_neg h

theorem length_splitOn (sep : Char) (cs : List Char) : (splitOn sep cs).length = cs.count sep + 1 := by
  induction cs with
  | nil => rfl
  | cons c cs ih =>
    by_cases hc : c = sep
    · rw [hc, splitOn_cons_self, List.length_cons, ih, List.count_cons_self]
    · rw [splitOn_cons_of_ne hc, List.count_cons_of_ne hc, ← ih]
      cases h : splitOn sep cs with
      | nil => rw [h] at ih; cases ih
      | cons p ps => rfl

/-- A line and the piece between line feeds that it is cut from. -/
def IsCutFrom (l p : List Char) : Prop := p = l ∨ p = l ++ ['\r']

theorem IsCutFrom.cons (h : IsCutFrom l p) (c : Char) : IsCutFrom (c :: l) (c :: p) :=
  h.imp (congrArg (c :: ·)) (congrArg (c :: ·))

theorem IsCutFrom.trim_eq (h : IsCutFrom l p) : trim p = trim l := by
  rcases h with rfl | rfl
  · rfl
  · exact trim_append_blank (by decide) l

theorem forall₂_pushFirst (h : List.Forall₂ IsCutFrom ls ps) (c : Char) :
    List.Forall₂ IsCutFrom (pushFirst c ls) (pushFirst c ps) := by
  cases h with
  | nil => exact .cons (.inl rfl) .nil
  | cons hl hls => exact .cons (hl.cons c) hls

/-- The pieces between line feeds are the lines, and an empty one more if the last line has its end. -/
theorem exists_forall₂_lines (cs : List Char) :
    ∃ rest, (rest = [] ∨ rest = [[]]) ∧ List.Forall₂ IsCutFrom (lines cs ++ rest) (splitOn '\n' cs) := by
  induction cs using lines.induct with
  | case1 => exact ⟨[[]], .inr rfl, .cons (.inl rfl) .nil⟩
  | case2 cs ih =>
    obtain ⟨rest, hrest, h⟩ := ih
    rw [splitOn_cons_self, lines]
    exact ⟨rest, hrest, .cons (.inl rfl) h⟩
  | case3 cs ih =>
    obtain ⟨rest, hrest, h⟩ := ih
    rw [splitOn_cons_of_ne (by decide), splitOn_cons_self, lines]
    exact ⟨rest, hrest, .cons (.inr rfl) h⟩
  | case4 c cs hfeed hreturn ih =>
    obtain ⟨rest, hrest, h⟩ := ih
    rw [splitOn_cons_of_ne hfeed, lines.eq_4 c cs hfeed hreturn]
    have hpush := forall₂_pushFirst h c
    cases hlines : lines cs with
    | nil =>
      -- The first character of a line that has no others yet.
      rw [hlines] at hpush
      refine ⟨[], .inl rfl, ?_⟩
      rcases hrest with rfl | rfl <;> exact hpush
    | cons l ls =>
      rw [hlines] at hpush
      exact ⟨rest, hrest, hpush⟩

end Text

namespace SampleFile
open Text
variable {s t r : SampleFile} {samples : List Sample} {x : Sample} {host : Option String} {n k : Nat}
  {ls ps : List (List Char)} {e : ParseError} {ds : List Duration} {text : String}

/-! ### Reading from a line on -/

/-- The sample on a line, if it has one, or what is wrong with it. -/
def sampleOf (raw : List Char) : Except Duration.ParseError (Option Sample) :=
  if isSkipped (trim raw) then .ok none else (Sample.ofLine (trim raw)).map some

theorem readLine_eq (raw : List Char) (number : Nat) : readLine raw number = (sampleOf raw).mapError (⟨number, ·⟩) := by
  unfold readLine sampleOf
  dsimp only
  split
  · rfl
  · cases Sample.ofLine (trim raw) <;> rfl

/-- The samples of lines that are counted from `n`. -/
def readFrom (n : Nat) (ls : List (List Char)) : Except ParseError (List Sample) := do
  return (← (ls.zipIdx n).mapM fun line => readLine line.1 line.2).filterMap id

theorem readFrom_cons (n : Nat) (raw : List Char) (ls : List (List Char)) : readFrom n (raw :: ls) =
    match sampleOf raw with
    | .ok found => (readFrom (n + 1) ls).map (found.toList ++ ·)
    | .error cause => .error ⟨n, cause⟩ := by
  unfold readFrom
  rw [List.zipIdx_cons, List.mapM_cons, readLine_eq]
  cases sampleOf raw with
  | error cause => rfl
  | ok found =>
    cases (ls.zipIdx (n + 1)).mapM fun line => readLine line.1 line.2 with
    | error e => rfl
    | ok xs => cases found <;> rfl

theorem readFrom_append (n : Nat) (ls ps : List (List Char)) : readFrom n (ls ++ ps) =
    match readFrom n ls, readFrom (n + ls.length) ps with
    | .error e, _ => .error e
    | .ok _, .error e => .error e
    | .ok xs, .ok ys => .ok (xs ++ ys) := by
  unfold readFrom
  rw [List.zipIdx_append, List.mapM_append]
  cases (ls.zipIdx n).mapM fun line => readLine line.1 line.2 with
  | error e => rfl
  | ok xs =>
    cases (ps.zipIdx (n + ls.length)).mapM fun line => readLine line.1 line.2 with
    | error e => rfl
    | ok ys => exact congrArg Except.ok List.filterMap_append

/-- The lines before the first one only count. -/
theorem readFrom_add (n k : Nat) (ls : List (List Char)) :
    readFrom (n + k) ls = (readFrom n ls).mapError fun e => ⟨e.line + k, e.cause⟩ := by
  induction ls generalizing n with
  | nil => rfl
  | cons raw ls ih =>
    rw [readFrom_cons, readFrom_cons]
    cases sampleOf raw with
    | error cause => rfl
    | ok found =>
      dsimp only
      rw [Nat.add_right_comm, ih]
      cases readFrom (n + 1) ls <;> rfl

theorem sampleOf_congr {l p : List Char} (h : trim p = trim l) : sampleOf p = sampleOf l := by
  rw [sampleOf, sampleOf, h]

theorem readFrom_congr (h : List.Forall₂ IsCutFrom ls ps) (n : Nat) : readFrom n ps = readFrom n ls := by
  induction h generalizing n with
  | nil => rfl
  | cons hl _ ih => rw [readFrom_cons, readFrom_cons, sampleOf_congr hl.trim_eq, ih]

theorem readSamples_eq (text : String) : readSamples text = readFrom 1 (splitOn '\n' text.toList) := rfl

theorem readSamples_append (a b : String) : readSamples (a ++ "\n" ++ b) =
    match readSamples a, readSamples b with
    | .error e, _ => .error e
    | .ok _, .error e => .error ⟨e.line + 1 + a.toList.count '\n', e.cause⟩
    | .ok xs, .ok ys => .ok (xs ++ ys) := by
  have htext : (a ++ "\n" ++ b).toList = a.toList ++ '\n' :: b.toList := by simp
  rw [readSamples_eq, readSamples_eq a, readSamples_eq b, htext, splitOn_append_cons, readFrom_append, readFrom_add,
    length_splitOn]
  cases readFrom 1 (splitOn '\n' a.toList) with
  | error e => rfl
  | ok xs =>
    cases readFrom 1 (splitOn '\n' b.toList) with
    | ok ys => rfl
    | error e =>
      have hline : e.line + (a.toList.count '\n' + 1) = e.line + 1 + a.toList.count '\n' := by omega
      exact congrArg (fun line => Except.error (ParseError.mk line e.cause)) hline

theorem readSamples_eq_readFrom (text : String) : readSamples text = readFrom 1 (lines text.toList) := by
  obtain ⟨rest, hrest, h⟩ := exists_forall₂_lines text.toList
  rw [readSamples_eq, readFrom_congr h]
  rcases hrest with rfl | rfl
  · rw [List.append_nil]
  · rw [readFrom_append]
    have hempty : readFrom (1 + (lines text.toList).length) [[]] = .ok [] := rfl
    rw [hempty]
    cases readFrom 1 (lines text.toList) with
    | error e => rfl
    | ok xs => exact congrArg Except.ok (List.append_nil xs)

/-! ### Lines with samples -/

/-- The lines that are not passed over, without the blanks at their ends. -/
def sampleLines (ls : List (List Char)) : List (List Char) := (ls.map trim).filter (!isSkipped ·)

theorem readFrom_eq_ok_iff : readFrom n ls = .ok samples ↔
    List.Forall₂ (fun line x => Sample.ofLine line = .ok x) (sampleLines ls) samples := by
  induction ls generalizing n samples with
  | nil =>
    refine Iff.trans ?_ List.forall₂_nil_left_iff.symm
    exact ⟨fun h => (Except.ok.inj h).symm, fun h => congrArg Except.ok h.symm⟩
  | cons raw ls ih =>
    rw [readFrom_cons, sampleOf, sampleLines, List.map_cons]
    by_cases hskip : isSkipped (trim raw) = true
    · rw [if_pos hskip, List.filter_cons_of_neg (by simp [hskip]), ← sampleLines, ← ih (n := n + 1)]
      dsimp only
      cases readFrom (n + 1) ls <;> rfl
    · rw [if_neg hskip, List.filter_cons_of_pos (by simp [hskip]), ← sampleLines, List.forall₂_cons_left_iff]
      simp only [← ih (n := n + 1)]
      cases Sample.ofLine (trim raw) with
      | error cause => exact iff_of_false nofun fun ⟨_, _, hx, _⟩ => nomatch hx
      | ok x =>
        refine Except.map_eq_ok_iff.trans ?_
        constructor
        · rintro ⟨xs, hxs, rfl⟩
          exact ⟨x, xs, rfl, hxs, rfl⟩
        · rintro ⟨y, xs, hy, hxs, rfl⟩
          exact ⟨xs, hxs, Except.ok.inj hy ▸ rfl⟩

theorem readFrom_eq_error_iff : readFrom n ls = .error e ↔ ∃ before raw after, ls = before ++ raw :: after ∧
    (∀ line ∈ before, ∃ found, sampleOf line = .ok found) ∧ sampleOf raw = .error e.cause ∧
      e.line = n + before.length := by
  induction ls generalizing n with
  | nil => exact iff_of_false nofun fun ⟨before, raw, after, h, _⟩ => absurd h.symm (by simp)
  | cons raw ls ih =>
    rw [readFrom_cons]
    constructor
    · intro h
      cases hraw : sampleOf raw with
      | error cause =>
        rw [hraw] at h
        cases h
        exact ⟨[], raw, ls, rfl, List.forall_mem_nil _, hraw, rfl⟩
      | ok found =>
        rw [hraw] at h
        obtain ⟨before, bad, after, rfl, hbefore, hbad, hline⟩ := ih.1 (Except.map_eq_error_iff.1 h)
        refine ⟨raw :: before, bad, after, rfl, List.forall_mem_cons.2 ⟨⟨found, hraw⟩, hbefore⟩, hbad, ?_⟩
        rw [hline, List.length_cons]
        omega
    · rintro ⟨before, bad, after, heq, hbefore, hbad, hline⟩
      cases before with
      | nil =>
        obtain ⟨rfl, rfl⟩ := List.cons.inj heq
        rw [hbad]
        exact congrArg (fun line => Except.error (ParseError.mk line e.cause)) hline.symm
      | cons first before =>
        obtain ⟨rfl, rfl⟩ := List.cons.inj heq
        obtain ⟨⟨found, hfound⟩, hbefore⟩ := List.forall_mem_cons.1 hbefore
        rw [hfound]
        refine Except.map_eq_error_iff.2 (ih.2 ⟨before, bad, after, rfl, hbefore, hbad, ?_⟩)
        rw [hline, List.length_cons]
        omega

/-! ### What a file holds -/

/-- The durations of the samples of a host, or of those without one. -/
def durationsOf (host : Option String) (samples : List Sample) : List Duration :=
  (samples.filter (·.host = host)).map (·.duration)

/-- The list, if there is anything on it. -/
def listed? (ds : List Duration) : Option (List Duration) := if ds = [] then none else some ds

structure Holds (s : SampleFile) (samples : List Sample) : Prop where
  unlabelled : s.unlabelled.durations = durationsOf none samples
  byHost : ∀ host, s.byHost.get? host = listed? (durationsOf (some host) samples)

theorem durationsOf_append (host : Option String) (xs ys : List Sample) :
    durationsOf host (xs ++ ys) = durationsOf host xs ++ durationsOf host ys := by
  rw [durationsOf, List.filter_append, List.map_append]
  rfl

theorem durationsOf_singleton_self (x : Sample) : durationsOf x.host [x] = [x.duration] := by
  rw [durationsOf, List.filter_singleton, decide_eq_true rfl]
  rfl

theorem durationsOf_singleton_of_ne (h : x.host ≠ host) : durationsOf host [x] = [] := by
  rw [durationsOf, List.filter_singleton, decide_eq_false h]
  rfl

theorem listed?_append (xs ys : List Duration) :
    listed? (xs ++ ys) = Option.merge (· ++ ·) (listed? xs) (listed? ys) := by
  cases xs with
  | nil => cases ys <;> rfl
  | cons x xs =>
    cases ys with
    | nil => exact congrArg some (List.append_nil (x :: xs))
    | cons y ys => rfl

theorem getD_listed? (ds : List Duration) : (listed? ds).getD [] = ds := by cases ds <;> rfl

/-- The file of what two files hold, first the one and then the other. -/
structure Followed (s t r : SampleFile) : Prop where
  unlabelled : r.unlabelled.durations = s.unlabelled.durations ++ t.unlabelled.durations
  byHost : ∀ host, r.byHost.get? host = Option.merge (· ++ ·) (s.byHost.get? host) (t.byHost.get? host)

theorem Holds.unique (hs : Holds s samples) (ht : Holds t samples) : s = t := by
  obtain ⟨⟨ds⟩, m⟩ := s
  obtain ⟨⟨es⟩, n⟩ := t
  have hunlabelled : ds = es := hs.unlabelled.trans ht.unlabelled.symm
  have hbyHost : m = n := KeyMap.ext_get? fun host => (hs.byHost host).trans (ht.byHost host).symm
  rw [hunlabelled, hbyHost]

theorem Holds.followed {xs ys : List Sample} (hs : Holds s xs) (ht : Holds t ys) (hr : Holds r (xs ++ ys)) :
    Followed s t r where
  unlabelled := by rw [hr.unlabelled, hs.unlabelled, ht.unlabelled, durationsOf_append]
  byHost host := by rw [hr.byHost, hs.byHost, ht.byHost, durationsOf_append, listed?_append]

theorem holds_empty : Holds {} [] := ⟨rfl, fun _ => rfl⟩

/-- The file with the list of a host changed, or that of the samples without one. -/
def update (host : Option String) (change : List Duration → List Duration) (s : SampleFile) : SampleFile :=
  match host with
  | some host => { s with byHost := s.byHost.insert host (change ((s.byHost.get? host).getD [])) }
  | none => { s with unlabelled := ⟨change s.unlabelled.durations⟩ }

theorem Holds.update {samples' : List Sample} {change : List Duration → List Duration} (h : Holds s samples)
    (host : Option String) (hself : durationsOf host samples' = change (durationsOf host samples))
    (hne : change (durationsOf host samples) ≠ [])
    (hothers : ∀ other, host ≠ other → durationsOf other samples' = durationsOf other samples) :
    Holds (s.update host change) samples' := by
  cases host with
  | none =>
    refine ⟨?_, fun name => ?_⟩
    · rw [hself, ← h.unlabelled]
      rfl
    · rw [hothers (some name) (Option.some_ne_none name).symm]
      exact h.byHost name
  | some host =>
    refine ⟨?_, fun name => ?_⟩
    · rw [hothers none (Option.some_ne_none host)]
      exact h.unlabelled
    · show (s.byHost.insert host _).get? name = _
      rw [KeyMap.get?_insert, h.byHost, getD_listed?]
      split
      next hname => rw [hname, hself, listed?, if_neg hne]
      next hname => rw [h.byHost, hothers _ fun heq => hname (Option.some.inj heq).symm]

theorem addFirst_eq (x : Sample) (s : SampleFile) : addFirst x s = s.update x.host (x.duration :: ·) := by
  unfold addFirst update
  cases x.host <;> rfl

theorem Holds.addFirst (h : Holds s samples) (x : Sample) : Holds (addFirst x s) (x :: samples) := by
  rw [addFirst_eq]
  refine h.update x.host ?_ (List.cons_ne_nil _ _) fun other hne => ?_
  · rw [← List.singleton_append, durationsOf_append, durationsOf_singleton_self]
    rfl
  · rw [← List.singleton_append, durationsOf_append, durationsOf_singleton_of_ne hne]
    rfl

theorem holds_ofSamples (samples : List Sample) : Holds (ofSamples samples) samples := by
  induction samples with
  | nil => exact holds_empty
  | cons x samples ih => exact ih.addFirst x

theorem parse_eq_ok_iff : parse text = .ok s ↔ ∃ samples,
    List.Forall₂ (fun line x => Sample.ofLine line = .ok x) (sampleLines (lines text.toList)) samples ∧
      Holds s samples := by
  rw [parse, Except.map_eq_ok_iff, readSamples_eq_readFrom]
  simp only [readFrom_eq_ok_iff]
  constructor
  · rintro ⟨samples, h, rfl⟩
    exact ⟨samples, h, holds_ofSamples samples⟩
  · rintro ⟨samples, h, hs⟩
    exact ⟨samples, h, (holds_ofSamples samples).unique hs⟩

theorem parse_eq_error_iff : parse text = .error e ↔ ∃ before raw after,
    lines text.toList = before ++ raw :: after ∧ (∀ line ∈ before, ∃ found, sampleOf line = .ok found) ∧
      sampleOf raw = .error e.cause ∧ e.line = before.length + 1 := by
  rw [parse, Except.map_eq_error_iff, readSamples_eq_readFrom, readFrom_eq_error_iff]
  simp only [Nat.add_comm 1]

/-! ### Line by line -/

/-- The file with one more sample behind all others. -/
def addLast (s : SampleFile) (x : Sample) : SampleFile := s.update x.host (· ++ [x.duration])

/-- The file after one more line. -/
def takeLine (s : SampleFile) (line : List Char × Nat) : Except ParseError SampleFile :=
  (readLine line.1 line.2).map fun found => found.elim s s.addLast

/-- The lines in their order, up to the first one that is not read. -/
def parseByLine (text : String) : Except ParseError SampleFile := ((lines text.toList).zipIdx 1).foldlM takeLine {}

theorem Holds.addLast (h : Holds s samples) (x : Sample) : Holds (s.addLast x) (samples ++ [x]) := by
  refine h.update x.host ?_ (by simp) fun other hne => ?_
  · rw [durationsOf_append, durationsOf_singleton_self]
  · rw [durationsOf_append, durationsOf_singleton_of_ne hne, List.append_nil]

theorem holds_foldl {before : List Sample} (h : Holds s before) (samples : List Sample) :
    Holds (samples.foldl addLast s) (before ++ samples) := by
  induction samples generalizing s before with
  | nil => rwa [List.append_nil]
  | cons x samples ih =>
    rw [List.foldl_cons, ← List.singleton_append, ← List.append_assoc]
    exact ih (h.addLast x)

theorem foldl_addLast (samples : List Sample) : samples.foldl addLast {} = ofSamples samples :=
  (holds_foldl holds_empty samples).unique (holds_ofSamples samples)

theorem parseByLine_eq (text : String) : parseByLine text = parse text := by
  have hfound : ∀ found : List (Option Sample),
      found.foldl (fun s x => x.elim s s.addLast) {} = ofSamples (found.filterMap id) := by
    intro found
    rw [← foldl_addLast, List.foldl_filterMap]
    refine congrArg (List.foldl · _ found) (funext₂ fun s x => ?_)
    cases x <;> rfl
  rw [parse, readSamples_eq_readFrom, parseByLine, readFrom]
  refine (foldlM_eq_map_mapM (fun (s : SampleFile) (x : Option Sample) => x.elim s s.addLast) {}).trans ?_
  cases ((lines text.toList).zipIdx 1).mapM fun line => readLine line.1 line.2 with
  | error e => rfl
  | ok found => exact congrArg Except.ok (hfound found)

/-! ### Summaries by host -/

theorem ascending_perHost (s : SampleFile) :
    (s.perHost.map fun summary => utf8Bytes summary.node.address).Pairwise (· < ·) := by
  rw [perHost, List.map_map]
  exact List.Pairwise.map _ (fun _ _ h => lt_iff_utf8Bytes.1 h) s.byHost.sorted

theorem mem_perHost_iff {summary : NodeLatency} : summary ∈ s.perHost ↔
    ∃ host ds, s.byHost.get? host = some ds ∧ summary = NodeLatency.measure host ds := by
  rw [perHost, List.mem_map]
  constructor
  · rintro ⟨⟨host, ds⟩, hmem, rfl⟩
    exact ⟨host, ds, KeyMap.mem_entries_iff.1 hmem, rfl⟩
  · rintro ⟨host, ds, hget, rfl⟩
    exact ⟨(host, ds), KeyMap.mem_entries_iff.2 hget, rfl⟩

/-- The summary of a host, if no step of it fails. -/
def measureHost? (entry : String × List Duration) : Option NodeLatency :=
  (LatencySamples.mk entry.2).measure?.map fun measured => { node := { address := entry.1 }, timings := measured.1 }

/-- A summary for each host, if no step of them fails. -/
def perHost? (s : SampleFile) : Option (List NodeLatency) := s.byHost.entries.mapM measureHost?

theorem measureHost?_eq (entry : String × List Duration) : measureHost? entry =
    if Latency.total entry.2 < 2 ^ 128 then some (NodeLatency.measure entry.1 entry.2) else none := by
  rw [measureHost?, LatencySamples.measure?_eq]
  split <;> rfl

theorem perHost?_eq (s : SampleFile) : s.perHost? =
    if ∀ entry ∈ s.byHost.entries, Latency.total entry.2 < 2 ^ 128 then some s.perHost else none := by
  rw [perHost?, funext measureHost?_eq]
  exact mapM_ite _ _ _

/-! ### Two files in one -/

theorem parse_append_of_error {a : String} (h : parse a = .error e) (b : String) :
    parse (a ++ "\n" ++ b) = .error e := by
  rw [parse, readSamples_append, Except.map_eq_error_iff.1 h]
  rfl

theorem parse_append_of_error_right {a b : String} (ha : parse a = .ok s) (hb : parse b = .error e) :
    parse (a ++ "\n" ++ b) = .error ⟨e.line + 1 + a.toList.count '\n', e.cause⟩ := by
  obtain ⟨xs, hxs, -⟩ := Except.map_eq_ok_iff.1 ha
  rw [parse, readSamples_append, hxs, Except.map_eq_error_iff.1 hb]
  rfl

theorem parse_of_readSamples (h : readSamples text = .ok samples) : parse text = .ok (ofSamples samples) := by
  rw [parse, h]
  rfl

theorem parse_append_of_ok {a b : String} (ha : parse a = .ok s) (hb : parse b = .ok t) :
    ∃ r, parse (a ++ "\n" ++ b) = .ok r ∧ Followed s t r := by
  obtain ⟨xs, hxs, rfl⟩ := Except.map_eq_ok_iff.1 ha
  obtain ⟨ys, hys, rfl⟩ := Except.map_eq_ok_iff.1 hb
  refine ⟨ofSamples (xs ++ ys), parse_of_readSamples ?_,
    (holds_ofSamples xs).followed (holds_ofSamples ys) (holds_ofSamples (xs ++ ys))⟩
  rw [readSamples_append, hxs, hys]

/-- Of two files with a line feed between them, the first that is not read gives the error, and lines of the second are
counted on; otherwise what the one holds is followed by what the other does. A file holds one sample for each line that
is not passed over. It has one summary for each host, in the order of the bytes of their names, unless one of them sums
up beyond 128 bits. -/
theorem parse_concatenates :
    (∀ a b, (∀ e, parse a = .error e → parse (a ++ "\n" ++ b) = .error e) ∧
      ∀ s, parse a = .ok s →
        (∀ e, parse b = .error e → parse (a ++ "\n" ++ b) = .error ⟨e.line + 1 + a.toList.count '\n', e.cause⟩) ∧
        ∀ t, parse b = .ok t → ∃ r, parse (a ++ "\n" ++ b) = .ok r ∧ Followed s t r) ∧
    (∀ text, parseByLine text = parse text ∧
      (∀ s, parse text = .ok s ↔ ∃ samples,
        List.Forall₂ (fun line x => Sample.ofLine line = .ok x) (sampleLines (lines text.toList)) samples ∧
          Holds s samples) ∧
      ∀ e, parse text = .error e ↔ ∃ before raw after, lines text.toList = before ++ raw :: after ∧
        (∀ line ∈ before, ∃ found, sampleOf line = .ok found) ∧ sampleOf raw = .error e.cause ∧
          e.line = before.length + 1) ∧
    ∀ s : SampleFile, (s.perHost.map fun summary => utf8Bytes summary.node.address).Pairwise (· < ·) ∧
      (∀ summary, summary ∈ s.perHost ↔
        ∃ host ds, s.byHost.get? host = some ds ∧ summary = NodeLatency.measure host ds) ∧
      s.perHost? = if ∀ entry ∈ s.byHost.entries, Latency.total entry.2 < 2 ^ 128 then some s.perHost else none :=
  ⟨fun _ b => ⟨fun _ h => parse_append_of_error h b, fun _ ha => ⟨fun _ => parse_append_of_error_right ha, fun _ =>
      parse_append_of_ok ha⟩⟩,
    fun text => ⟨parseByLine_eq text, fun _ => parse_eq_ok_iff, fun _ => parse_eq_error_iff⟩,
    fun s => ⟨ascending_perHost s, fun _ => mem_perHost_iff, perHost?_eq s⟩⟩

/-- A comment and a sample; the second line has no line feed at its end but a carriage return. -/
def firstHalf : String := "# first\r\nn2 10ms\r"

/-- An empty line, then samples of two hosts and of none. -/
def secondHalf : String := "\nn1 5\n7\nn2 1s"

/-- The host in both has its samples in their order. A bad line is found wherever it is: the first one before all
others, or the second one behind two. -/
theorem parse_halves :
    (∃ r, parse (firstHalf ++ "\n" ++ secondHalf) = .ok r ∧ r.unlabelled.durations = [⟨7, by decide⟩] ∧
      r.byHost.get? "n2" = some [⟨10000000, by decide⟩, ⟨1000000000, by decide⟩]) ∧
    parse (firstHalf ++ "\n" ++ "1ms\nfast") = .error ⟨4, ⟨"fast", .expectedNumber⟩⟩ ∧
    parse ("fast" ++ "\n" ++ secondHalf) = .error ⟨1, ⟨"fast", .expectedNumber⟩⟩ := by
  have hfirst : parse firstHalf = .ok (ofSamples [⟨some "n2", ⟨10000000, by decide⟩⟩]) :=
    parse_of_readSamples (by decide +kernel)
  have hsecond : parse secondHalf = .ok (ofSamples [⟨some "n1", ⟨5, by decide⟩⟩, ⟨none, ⟨7, by decide⟩⟩,
      ⟨some "n2", ⟨1000000000, by decide⟩⟩]) := parse_of_readSamples (by decide +kernel)
  have hbad : parse "1ms\nfast" = .error ⟨2, ⟨"fast", .expectedNumber⟩⟩ :=
    Except.map_eq_error_iff.2 (by decide +kernel)
  have hbadFirst : parse "fast" = .error ⟨1, ⟨"fast", .expectedNumber⟩⟩ :=
    Except.map_eq_error_iff.2 (by decide +kernel)
  refine ⟨?_, ((parse_concatenates.1 firstHalf _).2 _ hfirst).1 _ hbad, (parse_concatenates.1 _ _).1 _ hbadFirst⟩
  obtain ⟨r, hr, hfollowed⟩ := ((parse_concatenates.1 firstHalf secondHalf).2 _ hfirst).2 _ hsecond
  refine ⟨r, hr, ?_, ?_⟩
  · rw [hfollowed.unlabelled]
    rfl
  · rw [hfollowed.byHost]
    rfl

end SampleFile

end ClusterMetrics
