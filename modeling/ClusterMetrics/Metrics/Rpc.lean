import ClusterMetrics.Json.Record
import ClusterMetrics.Merge
import ClusterMetrics.NumEq
import ClusterMetrics.Timestamp.Codec

/-! # Calls between nodes

A node reports its calls in total and for each peer, and each peer in the same way again. Such a tree
is merged peer by peer. -/

namespace ClusterMetrics
open CheckedAdd (add?)

/-- What is counted for all calls or for those of one peer. -/
structure RpcCounters where
  collected : Timestamp := .zero
  connected : Int64 := 0
  reconnects : Int64 := 0
  disconnected : Int64 := 0
  outgoingStreams : Int64 := 0
  incomingStreams : Int64 := 0
  outgoingBytes : Int64 := 0
  incomingBytes : Int64 := 0
  outgoingMessages : Int64 := 0
  incomingMessages : Int64 := 0
  outQueue : Int64 := 0
  lastPong : Timestamp := .zero
  /-- The milliseconds of the ping that `lastPong` answered. -/
  lastPing : Binary64 := .zero
  /-- The milliseconds of the longest ping. -/
  longestPing : Binary64 := .zero
  lastConnect : Timestamp := .zero
deriving DecidableEq, Repr

namespace RpcCounters

instance : Inhabited RpcCounters := ⟨{}⟩

/-- A ping stays with the pong that answered it. -/
def merge? (a b : RpcCounters) : Option RpcCounters := do
  return {
    collected := a.collected.latest b.collected
    lastConnect := a.lastConnect.latest b.lastConnect
    connected := ← add? a.connected b.connected
    disconnected := ← add? a.disconnected b.disconnected
    reconnects := ← add? a.reconnects b.reconnects
    outgoingStreams := ← add? a.outgoingStreams b.outgoingStreams
    incomingStreams := ← add? a.incomingStreams b.incomingStreams
    outgoingBytes := ← add? a.outgoingBytes b.outgoingBytes
    incomingBytes := ← add? a.incomingBytes b.incomingBytes
    outgoingMessages := ← add? a.outgoingMessages b.outgoingMessages
    incomingMessages := ← add? a.incomingMessages b.incomingMessages
    outQueue := ← add? a.outQueue b.outQueue
    lastPong := a.lastPong.latest b.lastPong
    lastPing := if a.lastPong.lt b.lastPong then b.lastPing else a.lastPing
    longestPing := if a.longestPing.lt b.longestPing then b.longestPing else a.longestPing }

instance : Merge RpcCounters := ⟨{}, merge?⟩

/-- The counters apart from the pings. -/
def withoutPings (c : RpcCounters) : RpcCounters := { c with lastPing := .zero, longestPing := .zero }

def numEq (a b : RpcCounters) : Bool :=
  a.withoutPings == b.withoutPings && a.lastPing.numEq b.lastPing && a.longestPing.numEq b.longestPing

instance : NumEq RpcCounters := ⟨numEq⟩

def fields : List (Field RpcCounters) := [
  .plain "collectedAt" Timestamp.codec (·.collected) (fun v c => { c with collected := v }),
  .plain "connected" .int64 (·.connected) (fun v c => { c with connected := v }),
  .plain "reconnectCount" .int64 (·.reconnects) (fun v c => { c with reconnects := v }),
  .plain "disconnected" .int64 (·.disconnected) (fun v c => { c with disconnected := v }),
  .plain "outgoingStreams" .int64 (·.outgoingStreams) (fun v c => { c with outgoingStreams := v }),
  .plain "incomingStreams" .int64 (·.incomingStreams) (fun v c => { c with incomingStreams := v }),
  .plain "outgoingBytes" .int64 (·.outgoingBytes) (fun v c => { c with outgoingBytes := v }),
  .plain "incomingBytes" .int64 (·.incomingBytes) (fun v c => { c with incomingBytes := v }),
  .plain "outgoingMessages" .int64 (·.outgoingMessages) (fun v c => { c with outgoingMessages := v }),
  .plain "incomingMessages" .int64 (·.incomingMessages) (fun v c => { c with incomingMessages := v }),
  .plain "outQueue" .int64 (·.outQueue) (fun v c => { c with outQueue := v }),
  .plain "lastPongTime" Timestamp.codec (·.lastPong) (fun v c => { c with lastPong := v }),
  .plain "lastPingMS" .double (·.lastPing) (fun v c => { c with lastPing := v }),
  .plain "maxPingDurMS" .double (·.longestPing) (fun v c => { c with longestPing := v }),
  .plain "lastConnectTime" Timestamp.codec (·.lastConnect) (fun v c => { c with lastConnect := v })]

end RpcCounters

/-- Counters and the trees of the peers called and of those that called. -/
inductive RpcTree where
  | node (own : RpcCounters) (byDestination byCaller : List (String × RpcTree))

namespace RpcTree

def empty : RpcTree := node {} [] []

instance : Inhabited RpcTree := ⟨empty⟩

def own : RpcTree → RpcCounters
  | node c _ _ => c

def byDestination : RpcTree → List (String × RpcTree)
  | node _ ds _ => ds

def byCaller : RpcTree → List (String × RpcTree)
  | node _ _ cs => cs

mutual

def merge? (a : RpcTree) : RpcTree → Option RpcTree
  | node own ds cs => do
    return node (← a.own.merge? own) (← mergePeers? a.byDestination ds) (← mergePeers? a.byCaller cs)

/-- Each tree of the second list merged into the one with its key in the first. -/
def mergePeers? (peers : List (String × RpcTree)) : List (String × RpcTree) → Option (List (String × RpcTree))
  | [] => some peers
  | (key, t) :: rest => do
    mergePeers? (← Entries.alter? key (fun old => merge? (old.getD empty) t) peers) rest

end

/-- Peers are in ascending order at every node. -/
inductive Sorted : RpcTree → Prop where
  | node {own : RpcCounters} {ds cs : List (String × RpcTree)} (destinations : KeySorted ds)
      (callers : KeySorted cs) (within_destinations : ∀ p ∈ ds, Sorted p.2)
      (within_callers : ∀ p ∈ cs, Sorted p.2) : Sorted (node own ds cs)

theorem sorted_empty : Sorted empty :=
  .node List.Pairwise.nil List.Pairwise.nil (by simp) (by simp)

theorem Sorted.destinations_keySorted {t : RpcTree} (h : t.Sorted) : KeySorted t.byDestination := by
  cases h; assumption

theorem Sorted.callers_keySorted {t : RpcTree} (h : t.Sorted) : KeySorted t.byCaller := by
  cases h; assumption

theorem Sorted.of_mem_byDestination {t : RpcTree} (h : t.Sorted) : ∀ p ∈ t.byDestination, p.2.Sorted := by
  cases h; assumption

theorem Sorted.of_mem_byCaller {t : RpcTree} (h : t.Sorted) : ∀ p ∈ t.byCaller, p.2.Sorted := by
  cases h; assumption

mutual

theorem Sorted.of_merge? {a c : RpcTree} :
    ∀ {b : RpcTree}, merge? a b = some c → a.Sorted → b.Sorted → c.Sorted
  | node own ds cs, h, ha, hb => by
    simp only [merge?, Option.bind_eq_bind, Option.bind_eq_some_iff] at h
    obtain ⟨o, -, ds', hd, cs', hc, h⟩ := h
    cases h
    have hd := sorted_mergePeers? hd ha.destinations_keySorted ha.of_mem_byDestination hb.of_mem_byDestination
    have hc := sorted_mergePeers? hc ha.callers_keySorted ha.of_mem_byCaller hb.of_mem_byCaller
    exact .node hd.1 hc.1 hd.2 hc.2

theorem sorted_mergePeers? {ps rs : List (String × RpcTree)} :
    ∀ {qs : List (String × RpcTree)}, mergePeers? ps qs = some rs → KeySorted ps → (∀ p ∈ ps, p.2.Sorted) →
      (∀ q ∈ qs, q.2.Sorted) → KeySorted rs ∧ ∀ r ∈ rs, r.2.Sorted
  | [], h, hs, hp, _ => by
    rw [mergePeers?] at h; cases h; exact ⟨hs, hp⟩
  | (key, t) :: rest, h, hs, hp, hq => by
    simp only [mergePeers?, Option.bind_eq_bind, Option.bind_eq_some_iff] at h
    obtain ⟨ps', ha, h⟩ := h
    simp only [List.mem_cons, forall_eq_or_imp] at hq
    refine sorted_mergePeers? h (Entries.keySorted_alter? ha hs) ?_ hq.2
    refine Entries.forall_of_alter? ha hp fun old v ho hv => Sorted.of_merge? hv ?_ hq.1
    cases old with
    | none => exact sorted_empty
    | some x => exact ho x rfl

end

mutual

def numEq : RpcTree → RpcTree → Bool
  | node own ds cs, node own' ds' cs' => own.numEq own' && peersNumEq ds ds' && peersNumEq cs cs'

def peersNumEq : List (String × RpcTree) → List (String × RpcTree) → Bool
  | [], [] => true
  | (k, a) :: as, (l, b) :: bs => k == l && numEq a b && peersNumEq as bs
  | _, _ => false

end

mutual

/-- How many nodes lie on the longest way down. -/
def height : RpcTree → Nat
  | node _ ds cs => max (peersHeight ds) (peersHeight cs) + 1

def peersHeight : List (String × RpcTree) → Nat
  | [] => 0
  | (_, t) :: rest => max t.height (peersHeight rest)

end

end RpcTree

/-- A tree of counters with peers in ascending order. -/
structure RpcMetrics where
  tree : RpcTree
  sorted : tree.Sorted

namespace RpcMetrics

@[ext] theorem ext {a b : RpcMetrics} (h : a.tree = b.tree) : a = b := by
  cases a; cases b; subst h; rfl

def empty : RpcMetrics := ⟨.empty, RpcTree.sorted_empty⟩

instance : Inhabited RpcMetrics := ⟨empty⟩

def own (m : RpcMetrics) : RpcCounters := m.tree.own

/-- Sorted trees as a map. -/
def peers (ts : List (String × RpcTree)) (h : KeySorted ts) (hs : ∀ p ∈ ts, p.2.Sorted) :
    KeyMap RpcMetrics where
  entries := ts.pmap (fun p hp => (p.1, ⟨p.2, hp⟩)) hs
  sorted := h.pmap hs fun _ _ _ _ h => h

def byDestination (m : RpcMetrics) : KeyMap RpcMetrics :=
  peers m.tree.byDestination m.sorted.destinations_keySorted m.sorted.of_mem_byDestination

def byCaller (m : RpcMetrics) : KeyMap RpcMetrics :=
  peers m.tree.byCaller m.sorted.callers_keySorted m.sorted.of_mem_byCaller

/-- The tree with these counters and peers. -/
def node (own : RpcCounters) (byDestination byCaller : KeyMap RpcMetrics) : RpcMetrics where
  tree := .node own (byDestination.mapValues tree).entries (byCaller.mapValues tree).entries
  sorted := .node (KeyMap.sorted _) (KeyMap.sorted _)
    (by simp only [KeyMap.mapValues, List.mem_map]; rintro _ ⟨p, -, rfl⟩; exact p.2.sorted)
    (by simp only [KeyMap.mapValues, List.mem_map]; rintro _ ⟨p, -, rfl⟩; exact p.2.sorted)

def merge? (a b : RpcMetrics) : Option RpcMetrics :=
  match h : a.tree.merge? b.tree with
  | some t => some ⟨t, .of_merge? h a.sorted b.sorted⟩
  | none => none

instance : Merge RpcMetrics := ⟨empty, merge?⟩

instance : NumEq RpcMetrics := ⟨fun a b => a.tree.numEq b.tree⟩

def record (peer : Codec RpcMetrics) : Record RpcMetrics where
  default := empty
  isFlattened := false
  fields := RpcCounters.fields.map
      (.within own (fun c m => node c m.byDestination m.byCaller)) ++ [
    .optionalMap "byDestination" peer byDestination (fun v m => node m.own v m.byCaller),
    .optionalMap "byCaller" peer byCaller (fun v m => node m.own m.byDestination v)]

/-- The codec of trees of at most so many nodes in depth. -/
def codecWithin : Nat → Codec RpcMetrics
  | 0 => ⟨fun _ _ => none, fun _ => .null⟩
  | height + 1 => (record (codecWithin height)).codec

/-- Every level of a tree opens a container at least, so the bound on containers bounds the levels too. -/
def codec : Codec RpcMetrics where
  read depth j := (codecWithin depth).read depth j
  write m := (codecWithin m.tree.height).write m

end RpcMetrics

end ClusterMetrics
