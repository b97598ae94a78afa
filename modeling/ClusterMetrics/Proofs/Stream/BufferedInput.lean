import Mathlib.Logic.Relation
import ClusterMetrics.Proofs.Stream.FrameTexts
import ClusterMetrics.Proofs.Stream.Lifecycle

/-! # What a stream holds of its input

A call for the next frame looks for one in what the stream has buffered, and reads more and looks again until
there is one. What every look finds (`FrameDecoder.finds_next?`) carries over from look to look
(`Look.Inv.step`) and from call to call (`StreamSession.BetweenCalls.call`). Main statement: whenever a stream is
about to read, it holds nothing or the beginning of one frame that is not too large, and has scanned each byte of it
once (`StreamSession.holdsPart_calls`). -/

namespace ClusterMetrics

/-- A text that begins with a bracket begins with that of an object or an array. -/
theorem Json.exists_containerText_of_parse? {text : Bytes} {v : Json} (h : Json.parse? text = some v)
    (hhead : text.head? = some Byte.openBrace ∨ text.head? = some Byte.openBracket) :
    ∃ start, start <+: text ∧ ContainerText start := by
  have hblank : ∀ b ∈ text.head?, Byte.isBlank b = false := by
    intro b hb
    rcases hhead with hhead | hhead <;> rw [hhead] at hb <;> cases hb <;> rfl
  cases derives_of_parse? h with
  | @item _ before start after hbefore hd hafter =>
    cases before with
    | cons b before =>
      have hspace := hbefore b List.mem_cons_self
      rw [hblank b rfl] at hspace
      cases hspace
    | nil =>
      rw [List.nil_append] at hhead hblank ⊢
      refine ⟨start, List.prefix_append start after, hd.containerText ?_⟩
      cases start with
      | cons b start => exact hhead
      | nil =>
        cases after with
        | nil => exact hhead
        | cons b after =>
          have hspace := hafter b List.mem_cons_self
          rw [hblank b rfl] at hspace
          cases hspace

/-! ### The bytes that are scanned -/

namespace FrameScan
variable {s : FrameScan} {bytes more before after : Bytes} {b : UInt8}

/-- The bytes that `advance` scans, with one step for each. -/
def passed (s : FrameScan) : Bytes → Bytes
  | [] => []
  | b :: rest => if s.closesAt b then [b] else b :: (s.step b).passed rest

theorem foldl_passed (s : FrameScan) (bytes : Bytes) : (s.passed bytes).foldl step s = (s.advance bytes).1 := by
  induction bytes generalizing s with
  | nil => rfl
  | cons b rest ih =>
    rw [passed, advance]
    split
    · rfl
    · exact ih (s.step b)

theorem passed_prefix (s : FrameScan) (bytes : Bytes) : s.passed bytes <+: bytes := by
  induction bytes generalizing s with
  | nil => exact List.prefix_rfl
  | cons b rest ih =>
    rw [passed]
    split
    · exact List.cons_prefix_cons.2 ⟨rfl, List.nil_prefix⟩
    · exact List.cons_prefix_cons.2 ⟨rfl, ih (s.step b)⟩

theorem position_foldl (s : FrameScan) (bytes : Bytes) :
    (bytes.foldl step s).position = s.position + bytes.length := by
  induction bytes generalizing s with
  | nil => rfl
  | cons b rest ih =>
    rw [List.foldl_cons, ih, position_step, List.length_cons]
    omega

theorem position_advance (s : FrameScan) (bytes : Bytes) :
    (s.advance bytes).1.position = s.position + (s.passed bytes).length := by
  rw [← foldl_passed, position_foldl]

theorem passed_append_of_open (h : (s.advance bytes).2 = false) :
    s.passed (bytes ++ more) = bytes ++ (s.advance bytes).1.passed more := by
  induction bytes generalizing s with
  | nil => rfl
  | cons b rest ih =>
    rw [advance] at h ⊢
    rw [List.cons_append, passed]
    split at h
    · cases h
    · rename_i hb
      rw [if_neg hb, if_neg hb, ih h, List.cons_append]

theorem passed_of_open (h : (s.advance bytes).2 = false) : s.passed bytes = bytes := by
  have hpassed : s.passed (bytes ++ []) = bytes ++ (s.advance bytes).1.passed [] := passed_append_of_open h
  rwa [List.append_nil, passed, List.append_nil] at hpassed

/-- Every closing bracket among the bytes closes one that is open. -/
def ClosesOnlyOpened (s : FrameScan) (bytes : Bytes) : Prop :=
  ∀ before b after, bytes = before ++ b :: after →
    (before.foldl step s).inString = false → markOf b = .closing → 0 < (before.foldl step s).depth

/-- While brackets are open, some are open before every byte that is scanned. -/
theorem depth_foldl_pos (hs : 0 < s.depth) (h : s.passed bytes = before ++ b :: after) :
    0 < (before.foldl step s).depth := by
  induction bytes generalizing s before with
  | nil => exact absurd h.symm (List.append_ne_nil_of_right_ne_nil _ (List.cons_ne_nil _ _))
  | cons x rest ih =>
    rw [passed] at h
    cases before with
    | nil => exact hs
    | cons y before =>
      split at h
      · rw [List.cons_append, List.cons.injEq] at h
        exact absurd h.2.symm (List.append_ne_nil_of_right_ne_nil _ (List.cons_ne_nil _ _))
      · rename_i hx
        rw [List.cons_append, List.cons.injEq] at h
        obtain ⟨rfl, h⟩ := h
        exact ih (s := s.step x) (depth_step_pos (.inl hs) (Bool.eq_false_iff.2 hx)) h

theorem closesOnlyOpened_passed (hs : 0 < s.depth) (bytes : Bytes) : s.ClosesOnlyOpened (s.passed bytes) :=
  fun _ _ _ h _ _ => depth_foldl_pos hs h

/-- A frame begins with a bracket that is open until its end. -/
theorem closesOnlyOpened_start (hb : markOf b = .opening) (rest : Bytes) :
    ({} : FrameScan).ClosesOnlyOpened (({} : FrameScan).passed (b :: rest)) := by
  intro before x after h hstring hx
  rw [passed, closesAt_start hb, if_neg Bool.false_ne_true] at h
  cases before with
  | nil =>
    rw [List.nil_append, List.cons.injEq] at h
    obtain ⟨rfl, -⟩ := h
    rw [hb] at hx
    cases hx
  | cons y before =>
    rw [List.cons_append, List.cons.injEq] at h
    obtain ⟨rfl, h⟩ := h
    exact depth_foldl_pos (s := ({} : FrameScan).step b) (depth_step_pos (holds_start hb) (closesAt_start hb)) h

end FrameScan

/-! ### What a decoder holds -/

namespace FrameDecoder
variable {d d' : FrameDecoder} {f : Frame} {b : UInt8} {rest : Bytes}

/-- What is buffered is the beginning of one frame, and all of it is scanned. -/
structure HoldsBeginning (d : FrameDecoder) : Prop where
  opens : d.buffer.head? = some Json.Byte.openBrace ∨ d.buffer.head? = some Json.Byte.openBracket
  fits : d.buffer.length ≤ d.maxFrame
  position_eq : d.scan.position = d.buffer.length
  /-- A scan that begins anew comes to the same. -/
  advance_eq : ({} : FrameScan).advance d.buffer = (d.scan, false)
  depth_pos : 1 ≤ d.scan.depth
  staysOpen : Brackets.StaysOpen d.buffer
  /-- No frame is complete. -/
  undecodable : ∀ n, Frame.codec.decode? (d.buffer.take n) = none

/-- Nothing is buffered, or the beginning of one frame. -/
def HoldsPart (d : FrameDecoder) : Prop := d.buffer = [] ∧ d.scan = {} ∨ d.HoldsBeginning

/-- The scan is that of the bytes before its position, and has begun only at an opening bracket. -/
structure Coherent (d : FrameDecoder) : Prop where
  opens : d.scan.position ≠ 0 → ∃ b rest, d.buffer = b :: rest ∧ opensFrame b = true
  advance_eq : ({} : FrameScan).advance (d.buffer.take d.scan.position) = (d.scan, false)

/-- What was scanned of the frame before. -/
def earlier (d : FrameDecoder) : Bytes := d.buffer.take d.scan.position

/-- What a look for the next frame scans. -/
def scanned (d : FrameDecoder) : Bytes :=
  match d.begin with
  | .ok (begun, true) => begun.scan.passed (begun.buffer.drop begun.scan.position)
  | _ => []

theorem opensFrame_iff_eq : opensFrame b = true ↔ b = Json.Byte.openBrace ∨ b = Json.Byte.openBracket := by
  rw [opensFrame_iff, FrameScan.markOf_eq_opening, Brackets.isOpening, Bool.or_eq_true, beq_iff_eq, beq_iff_eq]

theorem dropWhile_isSpace_of_opens (ho : opensFrame b = true) : (b :: rest).dropWhile isSpace = b :: rest := by
  refine List.dropWhile_cons_of_neg ?_
  rcases opensFrame_iff_eq.1 ho with rfl | rfl <;> decide

namespace Coherent

theorem of_fresh (h : d.scan = {}) : d.Coherent :=
  ⟨fun h0 => absurd (by rw [h]) h0, by rw [h]; rfl⟩

theorem scan_eq (h : d.Coherent) (h0 : d.scan.position = 0) : d.scan = {} := by
  have hadvance := h.advance_eq
  rw [h0] at hadvance
  exact (congrArg Prod.fst hadvance).symm

theorem receive (h : d.HoldsPart) (bs : Bytes) : (d.receive bs).Coherent ∧ (d.receive bs).earlier = d.buffer := by
  rcases h with ⟨hbuffer, hscan⟩ | h
  · exact ⟨of_fresh hscan, by rw [earlier, FrameDecoder.receive, hscan, hbuffer]; rfl⟩
  · have htake : (d.buffer ++ bs).take d.scan.position = d.buffer := by rw [h.position_eq]; exact List.take_left
    refine ⟨⟨fun _ => ?_, ?_⟩, htake⟩
    · obtain ⟨b, rest, hb⟩ : ∃ b rest, d.buffer = b :: rest := by
        refine List.exists_cons_of_ne_nil fun hnil => ?_
        have hopens := h.opens
        rw [hnil] at hopens
        simp at hopens
      have hopens := h.opens
      rw [hb, List.head?_cons, Option.some.injEq, Option.some.injEq] at hopens
      exact ⟨b, rest ++ bs, congrArg (· ++ bs) hb, opensFrame_iff_eq.2 hopens⟩
    · show ({} : FrameScan).advance ((d.buffer ++ bs).take d.scan.position) = _
      rw [htake]
      exact h.advance_eq

end Coherent

/-- Before its first bracket a decoder skips white space, and it may find that there is no frame. -/
theorem begin_cases (h : d.Coherent) :
    (d.buffer.dropWhile isSpace = [] ∧ d.scan = {} ∧ d.begin = .ok ({ d with buffer := [] }, false)) ∨
    (∃ b rest, d.buffer.dropWhile isSpace = b :: rest ∧ opensFrame b = true ∧
      d.earlier = (b :: rest).take d.scan.position ∧ d.begin = .ok ({ d with buffer := b :: rest }, true)) ∨
    (d.scan = {} ∧ ∃ e, d.begin = .error e) := by
  by_cases h0 : d.scan.position = 0
  · have hscan := h.scan_eq h0
    have hearlier : ∀ bytes : Bytes, d.earlier = bytes.take d.scan.position := by
      intro bytes
      rw [earlier, h0, List.take_zero, List.take_zero]
    rw [begin, if_pos h0]
    cases hb : d.buffer.dropWhile isSpace with
    | nil => exact .inl ⟨rfl, hscan, rfl⟩
    | cons b rest =>
      by_cases ho : opensFrame b = true
      · exact .inr (.inl ⟨b, rest, rfl, ho, hearlier _, by simp [ho]⟩)
      · exact .inr (.inr ⟨hscan, .notAFrame b, by simp [ho]⟩)
  · obtain ⟨b, rest, hb, ho⟩ := h.opens h0
    have hd : { d with buffer := b :: rest } = d := by rw [← hb]
    refine .inr (.inl ⟨b, rest, ?_, ho, by rw [earlier, hb], ?_⟩)
    · rw [hb, dropWhile_isSpace_of_opens ho]
    · rw [begin, if_neg h0, hd]

/-- No part of a text that stays open is the text of a frame. -/
theorem undecodable_of_open {text : Bytes}
    (hhead : text.head? = some Json.Byte.openBrace ∨ text.head? = some Json.Byte.openBracket)
    (h : (({} : FrameScan).advance text).2 = false) (n : Nat) : Frame.codec.decode? (text.take n) = none := by
  refine Option.eq_none_iff_forall_ne_some.2 fun f hf => ?_
  obtain ⟨v, hv, -⟩ := Option.bind_eq_some_iff.1 hf
  have hpos : n ≠ 0 := by
    rintro rfl
    rw [List.take_zero, show Json.parse? [] = none from rfl] at hv
    cases hv
  have htake : (text.take n).head? = text.head? := by rw [List.head?_take, if_neg hpos]
  rw [← htake] at hhead
  obtain ⟨start, hstart, hcontainer⟩ := Json.exists_containerText_of_parse? hv hhead
  obtain ⟨rest, rfl⟩ := hstart.trans (List.take_prefix n text)
  -- The scan closes at the end of the object or array, and would so have closed.
  have hclosed := FrameScan.advance_containerText hcontainer
  rw [FrameScan.advance_append_of_closed (by rw [hclosed]), hclosed] at h
  cases h

/-- What a look for the next frame comes to. -/
inductive Finds (d : FrameDecoder) : Except StreamError (FrameDecoder × Option Frame) → Prop where
  | error (e : StreamError) : Finds d (.error e)
  /-- What was scanned is the text of the frame. -/
  | frame {d' : FrameDecoder} {f : Frame} (hmax : d'.maxFrame = d.maxFrame) (hscan : d'.scan = {})
      (hbuffer : d.buffer.dropWhile isSpace = d.earlier ++ d.scanned ++ d'.buffer)
      (hdecode : Frame.codec.decode? (d.earlier ++ d.scanned) = some f) : Finds d (.ok (d', some f))
  /-- What was scanned is what is left. -/
  | part {d' : FrameDecoder} (hmax : d'.maxFrame = d.maxFrame) (hpart : d'.HoldsPart)
      (hbuffer : d'.buffer = d.earlier ++ d.scanned) : Finds d (.ok (d', none))

section
variable (h : d.Coherent) (hearlier : d.earlier = (b :: rest).take d.scan.position)
include h hearlier

theorem advance_take : ({} : FrameScan).advance ((b :: rest).take d.scan.position) = (d.scan, false) :=
  hearlier ▸ h.advance_eq

/-- The scan goes on as if it had begun with the frame. -/
theorem advance_drop : d.scan.advance ((b :: rest).drop d.scan.position) = ({} : FrameScan).advance (b :: rest) := by
  have htake := advance_take h hearlier
  have happend := FrameScan.advance_append_of_open (b := (b :: rest).drop d.scan.position) (congrArg Prod.snd htake)
  rw [List.take_append_drop, htake] at happend
  exact happend.symm

theorem passed_eq : ({} : FrameScan).passed (b :: rest) =
    d.earlier ++ d.scan.passed ((b :: rest).drop d.scan.position) := by
  have htake := advance_take h hearlier
  have happend : ({} : FrameScan).passed ((b :: rest).take d.scan.position ++ (b :: rest).drop d.scan.position) = _ :=
    FrameScan.passed_append_of_open (congrArg Prod.snd htake)
  rw [List.take_append_drop, htake] at happend
  rw [happend, hearlier]

end

/-- The beginning of a frame that is not too large and that the scan does not close. -/
theorem holdsBeginning_of_open (hbuffer : d.buffer = b :: rest) (ho : opensFrame b = true)
    (hadvance : ({} : FrameScan).advance (b :: rest) = (d.scan, false)) (hfits : d.scan.position ≤ d.maxFrame) :
    d.HoldsBeginning := by
  have hmark := opensFrame_iff.1 ho
  have hopen : (({} : FrameScan).advance (b :: rest)).2 = false := congrArg Prod.snd hadvance
  have hhead : (b :: rest).head? = some Json.Byte.openBrace ∨ (b :: rest).head? = some Json.Byte.openBracket := by
    rcases opensFrame_iff_eq.1 ho with rfl | rfl
    · exact .inl rfl
    · exact .inr rfl
  have hdepth := (FrameScan.within_of_not_closed hmark hopen).depth_pos
  obtain ⟨hposition, hstays⟩ := FrameScan.staysOpen_of_not_closed hmark hopen
  rw [hadvance] at hdepth hposition
  rw [← hbuffer] at hhead hposition hstays hadvance hopen
  exact ⟨hhead, hposition ▸ hfits, hposition, hadvance, hdepth, hstays, undecodable_of_open hhead hopen⟩

/-- Once there is a bracket, the scan goes on to the end of the frame or of what is buffered. -/
theorem finds_scanFrame (h : d.Coherent) (hbuffer : d.buffer.dropWhile isSpace = b :: rest)
    (ho : opensFrame b = true) (hearlier : d.earlier = (b :: rest).take d.scan.position)
    (hpassed : ({} : FrameScan).passed (b :: rest) = d.earlier ++ d.scanned) :
    d.Finds (scanFrame { d with buffer := b :: rest }) := by
  have hposition := FrameScan.position_advance {} (b :: rest)
  rw [scanFrame]
  dsimp only
  rw [advance_drop h hearlier]
  cases hadvance : ({} : FrameScan).advance (b :: rest) with
  | mk scan closed =>
    rw [hadvance, hpassed, show ({} : FrameScan).position = 0 from rfl, Nat.zero_add] at hposition
    dsimp only at hposition ⊢
    by_cases hmax : d.maxFrame < scan.position
    · rw [if_pos hmax]
      exact .error _
    rw [if_neg hmax]
    cases closed with
    | true =>
      have htake : (b :: rest).take scan.position = d.earlier ++ d.scanned := by
        have hprefix := FrameScan.passed_prefix {} (b :: rest)
        rw [hpassed, List.prefix_iff_eq_take, ← hposition] at hprefix
        exact hprefix.symm
      rw [if_pos rfl, htake]
      cases hdecode : Frame.codec.decode? (d.earlier ++ d.scanned) with
      | none => exact .error _
      | some f =>
        refine .frame rfl rfl ?_ hdecode
        rw [hbuffer, ← htake, List.take_append_drop]
    | false =>
      rw [if_neg Bool.false_ne_true]
      have hopen : (({} : FrameScan).advance (b :: rest)).2 = false := congrArg Prod.snd hadvance
      refine .part rfl (.inr (holdsBeginning_of_open rfl ho hadvance (Nat.not_lt.1 hmax))) ?_
      rw [← hpassed, FrameScan.passed_of_open hopen]

theorem finds_next? (h : d.Coherent) : d.Finds d.next? := by
  rcases begin_cases h with ⟨-, hscan, hbegin⟩ | ⟨b, rest, hbuffer, ho, hearlier, hbegin⟩ | ⟨-, e, hbegin⟩
  · have hscanned : d.scanned = [] := by rw [scanned, hbegin]
    have hearlier : d.earlier = [] := by rw [earlier, hscan]; rfl
    rw [next?, hbegin]
    exact .part rfl (.inl ⟨rfl, hscan⟩) (by rw [hearlier, hscanned]; rfl)
  · have hscanned : d.scanned = d.scan.passed ((b :: rest).drop d.scan.position) := by rw [scanned, hbegin]
    have hpassed := passed_eq h hearlier
    rw [← hscanned] at hpassed
    rw [next?, hbegin]
    exact finds_scanFrame h hbuffer ho hearlier hpassed
  · rw [next?, hbegin]
    exact .error e

/-- Bytes are scanned from the beginning of the frame on. -/
theorem scanned_prefix (h : d.Coherent) : d.earlier ++ d.scanned <+: d.buffer.dropWhile isSpace := by
  rcases begin_cases h with ⟨-, hscan, hbegin⟩ | ⟨b, rest, hbuffer, -, hearlier, hbegin⟩ | ⟨hscan, e, hbegin⟩
  · rw [scanned, hbegin, earlier, hscan]
    exact List.nil_prefix
  · rw [scanned, hbegin, hbuffer, ← passed_eq h hearlier]
    exact FrameScan.passed_prefix ..
  · rw [scanned, hbegin, earlier, hscan]
    exact List.nil_prefix

theorem closesOnlyOpened_scanned (h : d.Coherent) : d.scan.ClosesOnlyOpened d.scanned := by
  have hnone : d.scan.ClosesOnlyOpened [] := fun before b after hnil => by
    exact absurd hnil.symm (List.append_ne_nil_of_right_ne_nil _ (List.cons_ne_nil _ _))
  rcases begin_cases h with ⟨-, -, hbegin⟩ | ⟨b, rest, -, ho, hearlier, hbegin⟩ | ⟨-, e, hbegin⟩
  · rw [scanned, hbegin]
    exact hnone
  · rw [scanned, hbegin]
    dsimp only
    by_cases h0 : d.scan.position = 0
    · rw [h.scan_eq h0]
      exact FrameScan.closesOnlyOpened_start (opensFrame_iff.1 ho) rest
    · -- The scan has begun, so the first bracket is still open.
      obtain ⟨n, hn⟩ : ∃ n, d.scan.position = n + 1 := Nat.exists_eq_succ_of_ne_zero h0
      have hadvance : ({} : FrameScan).advance (b :: rest.take n) = (d.scan, false) := by
        rw [← List.take_succ_cons, ← hn, ← hearlier]
        exact h.advance_eq
      have hdepth := (FrameScan.within_of_not_closed (opensFrame_iff.1 ho) (congrArg Prod.snd hadvance)).depth_pos
      rw [hadvance] at hdepth
      exact FrameScan.closesOnlyOpened_passed hdepth _
  · rw [scanned, hbegin]
    exact hnone

theorem next?_eq_none {maxFrame : Nat} {buffer : Bytes} {scan : FrameScan}
    (h : d.next?.toOption.map (fun r => (r.1.maxFrame, r.1.buffer, r.1.scan, r.2.isNone)) =
      some (maxFrame, buffer, scan, true)) : d.next? = .ok (⟨maxFrame, buffer, scan⟩, none) := by
  rcases hn : d.next? with e | ⟨d', f?⟩
  · rw [hn] at h; cases h
  · rw [hn] at h
    cases f? with
    | some f => cases h
    | none => cases h; rfl

theorem HoldsPart.length_le (h : d.HoldsPart) : d.buffer.length ≤ d.maxFrame := by
  rcases h with ⟨hbuffer, -⟩ | h
  · rw [hbuffer]; exact Nat.zero_le _
  · exact h.fits

end FrameDecoder

/-! ### The looks of a call -/

/-- One look for the next frame, in a call that goes on until there is one. -/
structure Look where
  decoder : FrameDecoder
  /-- What the looks of the call before this one have scanned, one after the other. -/
  before : Bytes
  /-- What is still to be read. -/
  body : Body

namespace Look
open FrameDecoder (HoldsPart)
variable {l l' : Look} {maxFrame bound : Nat}

/-- What the call has scanned with this look. -/
def scanned (l : Look) : Bytes := l.before ++ l.decoder.scanned

/-- After a look that finds no complete frame the call reads, and looks again when something has come. -/
inductive Step : Look → Look → Prop where
  | read {d d' : FrameDecoder} {before bs : Bytes} {body : Body} (h : d.next? = .ok (d', none)) :
      Step ⟨d, before, .bytes bs :: body⟩ ⟨d'.receive bs, before ++ d.scanned, body⟩
  | resume {d d' : FrameDecoder} {before : Bytes} {body : Body} (h : d.next? = .ok (d', none)) :
      Step ⟨d, before, .pending :: body⟩ ⟨d', before ++ d.scanned, body⟩

abbrev Steps : Look → Look → Prop := Relation.ReflTransGen Step

theorem nextFrom_of_step (h : Step l l') : l.decoder.nextFrom l.body = l'.decoder.nextFrom l'.body := by
  cases h with
  | read h => rw [FrameDecoder.nextFrom, h]; rfl
  | resume h => rw [FrameDecoder.nextFrom, h]; rfl

/-- Every look of a call comes to what the call comes to. -/
theorem nextFrom_of_steps (h : Steps l l') : l.decoder.nextFrom l.body = l'.decoder.nextFrom l'.body := by
  induction h with
  | refl => rfl
  | tail _ hstep ih => exact ih.trans (nextFrom_of_step hstep)

/-- A call that brings a frame has a look that finds it. -/
theorem exists_steps_of_nextFrom {d d' : FrameDecoder} {body body' : Body} {f : Frame}
    (h : d.nextFrom body = .ok (f, d', body')) (before : Bytes) :
    ∃ l, Steps ⟨d, before, body⟩ l ∧ l.decoder.next? = .ok (d', some f) ∧ l.body = body' := by
  refine FrameDecoder.nextFrom_induction (motive := fun d body => ∀ before,
    ∃ l, Steps ⟨d, before, body⟩ l ∧ l.decoder.next? = .ok (d', some f) ∧ l.body = body') ?_ ?_ ?_ h before
  · exact fun d hn before => ⟨_, .refl, hn, rfl⟩
  · intro d d₁ bs body hn ih before
    obtain ⟨l, hl, hfound⟩ := ih (before ++ d.scanned)
    exact ⟨l, .head (.read hn) hl, hfound⟩
  · intro d d₁ body hn ih before
    obtain ⟨l, hl, hfound⟩ := ih (before ++ d.scanned)
    exact ⟨l, .head (.resume hn) hl, hfound⟩

/-- What every look of a call keeps, if no read brings more than `bound` bytes. -/
structure Inv (maxFrame bound : Nat) (l : Look) : Prop where
  maxFrame_eq : l.decoder.maxFrame = maxFrame
  coherent : l.decoder.Coherent
  before_eq : l.before = l.decoder.earlier
  length_le : l.decoder.buffer.length ≤ maxFrame + bound
  reads_le : ∀ bs, .bytes bs ∈ l.body → bs.length ≤ bound

/-- What is left by a look that finds no complete frame, together with what comes. -/
theorem Inv.receive {d : FrameDecoder} {event : ReadEvent} {body : Body} {bs : Bytes} (h : l.Inv maxFrame bound)
    (hn : l.decoder.next? = .ok (d, none)) (hbody : l.body = event :: body) (hbs : bs.length ≤ bound) :
    Inv maxFrame bound ⟨d.receive bs, l.scanned, body⟩ := by
  have hfinds := FrameDecoder.finds_next? h.coherent
  rw [hn] at hfinds
  cases hfinds with
  | part hmax hpart hbuffer =>
    obtain ⟨hcoherent, hearlier⟩ := FrameDecoder.Coherent.receive hpart bs
    refine ⟨hmax.trans h.maxFrame_eq, hcoherent, ?_, ?_, fun bs' hmem => h.reads_le bs' ?_⟩
    · rw [hearlier, hbuffer, scanned, h.before_eq]
    · have hlength := hpart.length_le
      rw [hmax, h.maxFrame_eq] at hlength
      simp only [FrameDecoder.receive, List.length_append]
      omega
    · rw [hbody]
      exact List.mem_cons_of_mem _ hmem

theorem Inv.step (h : l.Inv maxFrame bound) (hstep : Step l l') : l'.Inv maxFrame bound := by
  cases hstep with
  | @read d d' before bs body hn => exact h.receive hn rfl (h.reads_le bs List.mem_cons_self)
  | @resume d d' before body hn =>
    have hnil : d'.receive [] = d' := by rw [FrameDecoder.receive, List.append_nil]
    have hinv : Inv maxFrame bound ⟨d'.receive [], _, body⟩ := h.receive hn rfl (Nat.zero_le bound)
    rwa [hnil] at hinv

theorem Inv.steps (h : l.Inv maxFrame bound) (hsteps : Steps l l') : l'.Inv maxFrame bound := by
  induction hsteps with
  | refl => exact h
  | tail _ hstep ih => exact ih.step hstep

/-- What a look does to the input that is buffered. -/
structure Sound (maxFrame bound : Nat) (l : Look) : Prop where
  length_le : l.decoder.buffer.length ≤ maxFrame + bound
  closesOnlyOpened : l.decoder.scan.ClosesOnlyOpened l.decoder.scanned
  /-- The bytes scanned are those of the frame from its beginning on, in their order and each once. -/
  scanned_prefix : l.scanned <+: l.decoder.buffer.dropWhile FrameDecoder.isSpace
  /-- If there is no complete frame, the call is about to read. -/
  waits : ∀ d, l.decoder.next? = .ok (d, none) → d.HoldsPart ∧ d.maxFrame = maxFrame ∧ l.scanned = d.buffer
  /-- If there is one, its text is what was scanned, and the rest is left. -/
  found : ∀ d f, l.decoder.next? = .ok (d, some f) → Frame.codec.decode? l.scanned = some f ∧
    l.decoder.buffer.dropWhile FrameDecoder.isSpace = l.scanned ++ d.buffer

theorem Inv.sound (h : l.Inv maxFrame bound) : l.Sound maxFrame bound := by
  have hfinds := FrameDecoder.finds_next? h.coherent
  have hscanned : l.scanned = l.decoder.earlier ++ l.decoder.scanned := by rw [scanned, h.before_eq]
  refine ⟨h.length_le, FrameDecoder.closesOnlyOpened_scanned h.coherent, ?_, fun d hn => ?_, fun d f hn => ?_⟩
  · rw [hscanned]
    exact FrameDecoder.scanned_prefix h.coherent
  · rw [hn] at hfinds
    cases hfinds with
    | part hmax hpart hbuffer => exact ⟨hpart, hmax.trans h.maxFrame_eq, hscanned.trans hbuffer.symm⟩
  · rw [hn] at hfinds
    rw [hscanned]
    cases hfinds with
    | frame _ _ hbuffer hdecode => exact ⟨hdecode, hbuffer⟩

end Look

/-! ### Between calls -/

/-- The most bytes that one read brings. -/
def Body.longestRead : Body → Nat
  | [] => 0
  | .bytes bs :: body => max bs.length (longestRead body)
  | _ :: body => longestRead body

theorem Body.length_le_longestRead {body : Body} {bs : Bytes} (h : .bytes bs ∈ body) :
    bs.length ≤ body.longestRead := by
  induction body with
  | nil => cases h
  | cons event body ih =>
    rcases List.mem_cons.1 h with rfl | hlater
    · exact Nat.le_max_left ..
    · cases event with
      | bytes bs' => exact Nat.le_trans (ih hlater) (Nat.le_max_right ..)
      | failure _ | pending | interrupt => exact ih hlater

namespace StreamSession
variable {s : StreamSession} {l : Look} {maxFrame bound : Nat}

/-- What holds of a stream before and after every call. -/
structure BetweenCalls (maxFrame bound : Nat) (s : StreamSession) : Prop where
  maxFrame_eq : s.stream.decoder.maxFrame = maxFrame
  scan_eq : s.stream.decoder.scan = {}
  length_le : s.stream.decoder.buffer.length ≤ maxFrame + bound
  reads_le : ∀ bs, .bytes bs ∈ s.stream.body → bs.length ≤ bound

/-- The next call for a frame looks at this. -/
def Looks (s : StreamSession) (l : Look) : Prop :=
  s.stream.phase.isTerminal = false ∧ s.raised = false ∧ Look.Steps ⟨s.stream.decoder, [], s.stream.body⟩ l

namespace BetweenCalls

theorem start (maxFrame : Nat) (body : Body) : (start maxFrame body).BetweenCalls maxFrame body.longestRead :=
  ⟨rfl, rfl, Nat.zero_le _, fun _ => Body.length_le_longestRead⟩

variable (h : s.BetweenCalls maxFrame bound)
include h

theorem inv_first : Look.Inv maxFrame bound ⟨s.stream.decoder, [], s.stream.body⟩ :=
  ⟨h.maxFrame_eq, .of_fresh h.scan_eq, by rw [FrameDecoder.earlier, h.scan_eq]; rfl, h.length_le, h.reads_le⟩

theorem finish (phase : StreamPhase) (a : Except StreamError (Option Frame)) :
    (s.answer (s.stream.finish phase) a).BetweenCalls maxFrame bound :=
  ⟨h.maxFrame_eq, rfl, Nat.zero_le _, nofun⟩

theorem frame {f : Frame} {d : FrameDecoder} {body : Body}
    (hread : s.stream.decoder.nextFrom s.stream.body = .ok (f, d, body)) :
    (s.answer (s.stream.after f d body) (.ok (some f))).BetweenCalls maxFrame bound := by
  obtain ⟨l, hl, hn, rfl⟩ := Look.exists_steps_of_nextFrom hread []
  have hinv := h.inv_first.steps hl
  have hfinds := FrameDecoder.finds_next? hinv.coherent
  rw [hn] at hfinds
  cases hfinds with
  | frame hmax hscan hbuffer _ =>
    have hlength : d.buffer.length ≤ l.decoder.buffer.length := by
      have hsuffix := (List.dropWhile_suffix (l := l.decoder.buffer) FrameDecoder.isSpace).length_le
      rw [hbuffer, List.length_append] at hsuffix
      omega
    cases hf : f.isFinal with
    | true =>
      rw [Stream.after_of_final d l.body hf]
      exact ⟨hmax.trans hinv.maxFrame_eq, rfl, Nat.zero_le _, nofun⟩
    | false =>
      rw [Stream.after_of_not_final d l.body hf]
      exact ⟨hmax.trans hinv.maxFrame_eq, hscan, Nat.le_trans hlength hinv.length_le, hinv.reads_le⟩

theorem call (c : StreamCall) : (s.call c).BetweenCalls maxFrame bound := by
  cases c with
  | cancel => exact { h with }
  | next =>
    rw [StreamSession.call]
    rcases s.stream.next_cases s.raised with
      ⟨-, hn⟩ | ⟨-, -, hn⟩ | ⟨-, -, e, -, hn⟩ | ⟨-, -, f, decoder, body, hread, hn⟩
    · rw [hn]; exact { h with }
    · rw [hn]; exact h.finish _ _
    · rw [hn]; exact h.finish _ _
    · rw [hn]; exact h.frame hread

omit h in
theorem calls (h : s.BetweenCalls maxFrame bound) (cs : List StreamCall) :
    (s.calls cs).BetweenCalls maxFrame bound := by
  induction cs generalizing s with
  | nil => exact h
  | cons c cs ih => exact ih (h.call c)

end BetweenCalls

/-- After any calls on a new stream nothing is scanned that is not handed out, and no more is buffered than a frame may
have and one read brings. In the next call that is so for every look, and whenever there is no complete frame and the
stream is about to read, it holds nothing or the beginning of one frame, all of it scanned. What a call has scanned is
always the text of its frame from the beginning on, each byte once, and when the frame is complete, just its text; no
closing bracket among it is without one that is open. -/
theorem holdsPart_calls (maxFrame : Nat) (body : Body) (cs : List StreamCall) :
    let s := (start maxFrame body).calls cs
    s.stream.decoder.scan = {} ∧ s.stream.decoder.buffer.length ≤ maxFrame + body.longestRead ∧
    (∀ l, s.Looks l → l.Sound maxFrame body.longestRead ∧
      s.stream.decoder.nextFrom s.stream.body = l.decoder.nextFrom l.body) ∧
    ∀ f, (s.stream.next s.raised).1 = .ok (some f) → ∃ l d, s.Looks l ∧ l.decoder.next? = .ok (d, some f) := by
  intro s
  have hbetween : s.BetweenCalls maxFrame body.longestRead := (BetweenCalls.start maxFrame body).calls cs
  refine ⟨hbetween.scan_eq, hbetween.length_le, fun l hl => ?_, fun f hf => ?_⟩
  · obtain ⟨-, -, hsteps⟩ := hl
    exact ⟨(hbetween.inv_first.steps hsteps).sound, Look.nextFrom_of_steps hsteps⟩
  · rcases s.stream.next_cases s.raised with
      ⟨-, hn⟩ | ⟨-, -, hn⟩ | ⟨-, -, e, -, hn⟩ | ⟨ht, hr, g, decoder, body', hread, hn⟩
    · rw [hn] at hf; cases hf
    · rw [hn] at hf; cases hf
    · rw [hn] at hf; cases hf
    · rw [hn] at hf
      cases hf
      obtain ⟨l, hl, hfound, -⟩ := Look.exists_steps_of_nextFrom hread []
      exact ⟨l, decoder, ⟨ht, hr, hl⟩, hfound⟩

def secondPiece : Bytes := utf8Bytes "ors\":[\"\\"

/-- A frame, and the next one as far as an escape, in two pieces. -/
def cutInEscape : Body :=
  [.bytes (utf8Bytes "\x7b\"hosts\":[\"a\"]\x7d \x7b\"err"), .bytes secondPiece, .pending]

/-- What is held of the first piece after its frame. -/
def heldOfFirst : FrameDecoder := ⟨64, utf8Bytes "\x7b\"err", ⟨5, 1, true, false⟩⟩

/-- Two brackets and a string are open, and a byte is to be escaped, when the second piece has come. -/
theorem holdsPart_cutInEscape : ∃ l d, ((start 64 cutInEscape).calls [.next]).Looks l ∧
    l.decoder.next? = .ok (d, none) ∧ d.HoldsBeginning ∧ d.buffer = utf8Bytes "\x7b\"errors\":[\"\\" ∧
    d.scan = ⟨13, 2, true, true⟩ ∧ l.scanned = d.buffer := by
  let s := (start 64 cutInEscape).calls [.next]
  have hphase : s.stream.phase.isTerminal = false := by decide +kernel
  have hbody : s.stream.body = [.bytes secondPiece, .pending] := by decide +kernel
  have hfirst : s.stream.decoder.next? = .ok (heldOfFirst, none) := FrameDecoder.next?_eq_none (by decide +kernel)
  have hsecond : (heldOfFirst.receive secondPiece).next? =
      .ok (⟨64, utf8Bytes "\x7b\"errors\":[\"\\", ⟨13, 2, true, true⟩⟩, none) :=
    FrameDecoder.next?_eq_none (by decide +kernel)
  have hstep : Look.Step ⟨s.stream.decoder, [], s.stream.body⟩
      ⟨heldOfFirst.receive secondPiece, [] ++ s.stream.decoder.scanned, [.pending]⟩ := by
    rw [hbody]
    exact .read hfirst
  have hlooks : s.Looks ⟨heldOfFirst.receive secondPiece, [] ++ s.stream.decoder.scanned, [.pending]⟩ :=
    ⟨hphase, rfl, .single hstep⟩
  obtain ⟨-, -, hsound, -⟩ := holdsPart_calls 64 cutInEscape [.next]
  obtain ⟨hpart, -, hscanned⟩ := (hsound _ hlooks).1.waits _ hsecond
  refine ⟨_, _, hlooks, hsecond, hpart.resolve_left ?_, rfl, rfl, hscanned⟩
  rintro ⟨hempty, -⟩
  exact absurd hempty (by decide)

end StreamSession

end ClusterMetrics
