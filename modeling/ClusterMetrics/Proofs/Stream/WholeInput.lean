import ClusterMetrics.Proofs.Stream.Brackets
import ClusterMetrics.Proofs.Stream.RunSteps

/-! # Streams against their whole input

What a stream hands out, said of all bytes of its body at once: `WholeInput.run` cuts one frame after the
other off the front. Main statement: a stream that is run to its end comes to just that
(`Stream.runAll_ofPieces`), so how its bytes came in pieces does not matter, and neither do the bytes after
a final frame. -/

namespace ClusterMetrics

namespace WholeInput
open Brackets

/-- The first frame of the input and what comes after it, or why there is none. Where the input ends too
early, that is `ending`. -/
def frameOf (maxFrame : Nat) (ending : StreamError) (input : Bytes) : Except StreamError (Frame × Bytes) :=
  match input.dropWhile FrameDecoder.isSpace with
  | [] => .error ending
  | b :: rest =>
    if isOpening b then
      match closedLength? (b :: rest) with
      | none => .error (if maxFrame < (b :: rest).length then .frameTooLarge maxFrame else ending)
      | some n =>
        if maxFrame < n then .error (.frameTooLarge maxFrame)
        else match Frame.codec.decode? ((b :: rest).take n) with
          | none => .error .malformed
          | some f => .ok (f, (b :: rest).drop n)
    else .error (.notAFrame b)

variable {maxFrame : Nat} {ending : StreamError}

theorem length_frameOf {input rest : Bytes} {f : Frame} (h : frameOf maxFrame ending input = .ok (f, rest)) :
    rest.length < input.length := by
  have hdrop := (List.dropWhile_suffix (l := input) FrameDecoder.isSpace).length_le
  unfold frameOf at h
  split at h
  · cases h
  rename_i b tail hb
  rw [hb] at hdrop
  split at h
  · split at h
    · cases h
    rename_i n hn
    split at h
    · cases h
    split at h
    · cases h
    · cases h
      have hmem := (List.find?_range'_eq_some.1 hn).2.1
      have h0 := (List.mem_range'_1.1 hmem).1
      rw [List.length_drop]
      rw [List.length_cons] at hdrop ⊢
      omega
  · cases h

/-- The frames of the input up to the first that is final, and the count of them or why no final one
came. -/
def run (maxFrame : Nat) (ending : StreamError) (input : Bytes) : Stream.Outcome :=
  match h : frameOf maxFrame ending input with
  | .error e => ⟨[], .error e⟩
  | .ok (f, rest) =>
    have := length_frameOf h
    if f.isFinal then ⟨[f], .ok 1⟩
    else
      let later := run maxFrame ending rest
      ⟨f :: later.delivered, later.result.map (· + 1)⟩
termination_by input.length

theorem run_of_error {input : Bytes} {e : StreamError} (h : frameOf maxFrame ending input = .error e) :
    run maxFrame ending input = ⟨[], .error e⟩ := by
  rw [run]; split <;> simp_all

theorem run_of_final {input rest : Bytes} {f : Frame} (h : frameOf maxFrame ending input = .ok (f, rest))
    (hf : f.isFinal = true) : run maxFrame ending input = ⟨[f], .ok 1⟩ := by
  rw [run]; split <;> simp_all

theorem run_of_ok {input rest : Bytes} {f : Frame} (h : frameOf maxFrame ending input = .ok (f, rest))
    (hf : f.isFinal = false) :
    run maxFrame ending input =
      ⟨f :: (run maxFrame ending rest).delivered, (run maxFrame ending rest).result.map (· + 1)⟩ := by
  rw [run]; split <;> simp_all

end WholeInput

/-! ### Scanning in pieces -/

namespace FrameScan
open Brackets
variable {s : FrameScan} {a b : Bytes}

theorem advance_append_of_closed (h : (s.advance a).2 = true) : s.advance (a ++ b) = s.advance a := by
  induction a generalizing s with
  | nil => cases h
  | cons x a ih =>
    rw [List.cons_append, advance, advance]
    rw [advance] at h
    split at h
    · rename_i hx; rw [if_pos hx, if_pos hx]
    · rename_i hx; rw [if_neg hx, if_neg hx, ih h]

theorem advance_append_of_open (h : (s.advance a).2 = false) :
    s.advance (a ++ b) = (s.advance a).1.advance b := by
  induction a generalizing s with
  | nil => rfl
  | cons x a ih =>
    rw [List.cons_append, advance, advance]
    rw [advance] at h
    split at h
    · cases h
    · rename_i hx; rw [if_neg hx, if_neg hx, ih h]

theorem markOf_eq_opening {b : UInt8} : markOf b = .opening ↔ isOpening b = true := by
  unfold markOf isOpening; grind

end FrameScan

namespace FrameDecoder
open Brackets
variable {d : FrameDecoder}

theorem opensFrame_iff {b : UInt8} : opensFrame b = true ↔ FrameScan.markOf b = .opening := beq_iff_eq

/-- The scan is where it would be had it begun anew, and it has begun only at an opening bracket. -/
structure Resumable (d : FrameDecoder) : Prop where
  fresh : d.scan.position = 0 → d.scan = {}
  opens : d.scan.position ≠ 0 → ∃ b rest, d.buffer = b :: rest ∧ opensFrame b = true
  caughtUp : ∀ more,
    d.scan.advance ((d.buffer ++ more).drop d.scan.position) = ({} : FrameScan).advance (d.buffer ++ more)

namespace Resumable

theorem of_fresh (h : d.scan = {}) : d.Resumable :=
  ⟨fun _ => h, fun h0 => absurd (by rw [h]) h0, fun _ => by rw [h]; rfl⟩

theorem receive (h : d.Resumable) (bytes : Bytes) : (d.receive bytes).Resumable := by
  refine ⟨h.fresh, fun h0 => ?_, fun more => ?_⟩
  · obtain ⟨b, rest, hb, ho⟩ := h.opens h0
    exact ⟨b, rest ++ bytes, by simp [FrameDecoder.receive, hb], ho⟩
  · have := h.caughtUp (bytes ++ more)
    simpa only [FrameDecoder.receive, List.append_assoc] using this

end Resumable

end FrameDecoder

/-! ### The next frame of a decoder -/

namespace WholeInput
open Brackets
variable {maxFrame : Nat} {ending : StreamError} {b : UInt8} {rest more : Bytes}

theorem frameOf_cons_of_isSpace (h : FrameDecoder.isSpace b = true) :
    frameOf maxFrame ending (b :: rest) = frameOf maxFrame ending rest := by
  unfold frameOf; rw [List.dropWhile_cons_of_pos h]

theorem frameOf_dropWhile (input more : Bytes) :
    frameOf maxFrame ending (input.dropWhile FrameDecoder.isSpace ++ more) =
      frameOf maxFrame ending (input ++ more) := by
  induction input with
  | nil => rfl
  | cons b input ih =>
    by_cases hb : FrameDecoder.isSpace b = true
    · rw [List.dropWhile_cons_of_pos hb, List.cons_append, frameOf_cons_of_isSpace hb, ih]
    · rw [List.dropWhile_cons_of_neg hb]

theorem isSpace_of_isOpening (h : isOpening b = true) : FrameDecoder.isSpace b = false := by
  simp only [isOpening, Bool.or_eq_true, beq_iff_eq] at h
  rcases h with rfl | rfl <;> decide

theorem frameOf_of_not_opens (hs : FrameDecoder.isSpace b = false) (ho : isOpening b = false) :
    frameOf maxFrame ending (b :: rest) = .error (.notAFrame b) := by
  unfold frameOf
  rw [List.dropWhile_cons_of_neg (by simp [hs])]
  simp [ho]

section
variable (ho : isOpening b = true)
include ho

theorem frameOf_of_opens :
    frameOf maxFrame ending (b :: rest) =
      match closedLength? (b :: rest) with
      | none => .error (if maxFrame < (b :: rest).length then .frameTooLarge maxFrame else ending)
      | some n =>
        if maxFrame < n then .error (.frameTooLarge maxFrame)
        else match Frame.codec.decode? ((b :: rest).take n) with
          | none => .error .malformed
          | some f => .ok (f, (b :: rest).drop n) := by
  unfold frameOf
  rw [List.dropWhile_cons_of_neg (by simp [isSpace_of_isOpening ho])]
  simp only [ho, if_true]

/-- A frame that is closed is the same prefix, whatever comes after. -/
theorem frameOf_of_closed {n : Nat} (hn : closedLength? (b :: rest) = some n) (more : Bytes) :
    frameOf maxFrame ending (b :: rest ++ more) =
      if maxFrame < n then .error (.frameTooLarge maxFrame)
      else match Frame.codec.decode? ((b :: rest).take n) with
        | none => .error .malformed
        | some f => .ok (f, (b :: rest).drop n ++ more) := by
  have hle := closedLength?_le hn
  rw [List.cons_append, frameOf_of_opens ho, ← List.cons_append, closedLength?_append hn]
  simp only [List.take_append_of_le_length hle, List.drop_append_of_le_length hle]

/-- A frame that has grown too large stays so, whatever comes after. -/
theorem frameOf_of_staysOpen_large (h : StaysOpen (b :: rest)) (hlen : maxFrame < (b :: rest).length) :
    frameOf maxFrame ending (b :: rest ++ more) = .error (.frameTooLarge maxFrame) := by
  rw [List.cons_append, frameOf_of_opens ho]
  split
  · rw [← List.cons_append, List.length_append, if_pos (by omega)]
  · rename_i n hn
    have := h.lt_of_closedLength? hn
    rw [if_pos (by omega)]

theorem frameOf_of_staysOpen (h : StaysOpen (b :: rest)) (hlen : ¬ maxFrame < (b :: rest).length) :
    frameOf maxFrame ending (b :: rest) = .error ending := by
  rw [frameOf_of_opens ho, closedLength?_eq_none h]
  simp only [if_neg hlen]

end

/-! ### Bytes after the frames -/

theorem frameOf_append_of_ok {input : Bytes} {f : Frame}
    (h : frameOf maxFrame ending input = .ok (f, rest)) (ending' : StreamError) (more : Bytes) :
    frameOf maxFrame ending' (input ++ more) = .ok (f, rest ++ more) := by
  rw [← frameOf_dropWhile]
  unfold frameOf at h
  split at h
  · cases h
  rename_i b tail hb
  rw [hb]
  split at h
  · rename_i ho
    split at h
    · cases h
    rename_i n hn
    rw [frameOf_of_closed ho hn]
    split at h
    · cases h
    rename_i hmax
    rw [if_neg hmax]
    split at h <;> cases h
    rfl
  · cases h

/-- What comes after a final frame does not matter. -/
theorem run_append_of_ok {input : Bytes} {n : Nat} (h : (run maxFrame ending input).result = .ok n)
    (ending' : StreamError) (more : Bytes) :
    run maxFrame ending' (input ++ more) = run maxFrame ending input := by
  induction hl : input.length using Nat.strongRecOn generalizing input n with
  | ind l ih =>
    subst hl
    cases hf : frameOf maxFrame ending input with
    | error e => rw [run_of_error hf] at h; cases h
    | ok read =>
      obtain ⟨f, rest⟩ := read
      have happ := frameOf_append_of_ok hf ending' more
      cases hfin : f.isFinal with
      | true => rw [run_of_final hf hfin, run_of_final happ hfin]
      | false =>
        rw [run_of_ok hf hfin] at h
        cases hr : (run maxFrame ending rest).result with
        | error e => rw [hr] at h; cases h
        | ok m => rw [run_of_ok hf hfin, run_of_ok happ hfin, ih _ (length_frameOf hf) hr rfl]

end WholeInput

namespace FrameDecoder
open Brackets WholeInput
variable {d d' : FrameDecoder}

/-- What looking for the next frame comes to, as the frames of the whole input have it. -/
inductive Agrees (d : FrameDecoder) : Except StreamError (FrameDecoder × Option Frame) → Prop where
  | error {e : StreamError} (h : ∀ ending more, frameOf d.maxFrame ending (d.buffer ++ more) = .error e) :
      Agrees d (.error e)
  | frame {d' : FrameDecoder} {f : Frame} (hmax : d'.maxFrame = d.maxFrame) (hscan : d'.scan = {})
      (h : ∀ ending more, frameOf d.maxFrame ending (d.buffer ++ more) = .ok (f, d'.buffer ++ more)) :
      Agrees d (.ok (d', some f))
  | incomplete {d' : FrameDecoder} (hmax : d'.maxFrame = d.maxFrame) (hd : d'.Resumable)
      (hend : ∀ ending, frameOf d.maxFrame ending d.buffer = .error ending)
      (h : ∀ ending more,
        frameOf d.maxFrame ending (d'.buffer ++ more) = frameOf d.maxFrame ending (d.buffer ++ more)) :
      Agrees d (.ok (d', none))

theorem Agrees.of_dropWhile {r : Except StreamError (FrameDecoder × Option Frame)}
    (h : Agrees { d with buffer := d.buffer.dropWhile isSpace } r) : Agrees d r := by
  have hdrop : ∀ ending more, frameOf d.maxFrame ending (d.buffer.dropWhile isSpace ++ more) =
      frameOf d.maxFrame ending (d.buffer ++ more) := fun _ more => frameOf_dropWhile d.buffer more
  cases h with
  | error h => exact .error fun ending more => by rw [← hdrop]; exact h ending more
  | frame hmax hscan h => exact .frame hmax hscan fun ending more => by rw [← hdrop]; exact h ending more
  | incomplete hmax hd hend h =>
    refine .incomplete hmax hd (fun ending => ?_) fun ending more => (h ending more).trans (hdrop ending more)
    have := hdrop ending []
    rw [List.append_nil, List.append_nil] at this
    rw [← this]; exact hend ending

theorem agrees_scanFrame (h : d.Resumable) {b : UInt8} {rest : Bytes} (hb : d.buffer = b :: rest)
    (ho : opensFrame b = true) : Agrees d d.scanFrame := by
  have hmark := opensFrame_iff.1 ho
  have hopen := FrameScan.markOf_eq_opening.1 hmark
  have hscan : d.scan.advance (d.buffer.drop d.scan.position) = ({} : FrameScan).advance (b :: rest) := by
    rw [← hb]
    simpa only [List.append_nil] using h.caughtUp []
  unfold scanFrame
  rw [hscan]
  dsimp only
  cases hc : (({} : FrameScan).advance (b :: rest)).2 with
  | true =>
    have hlen := FrameScan.closedLength?_of_closed hmark hc []
    generalize (({} : FrameScan).advance (b :: rest)).1 = scan at hlen ⊢
    rw [List.append_nil] at hlen
    by_cases hmax : d.maxFrame < scan.position
    · rw [if_pos hmax]
      exact .error fun ending more => by rw [hb, frameOf_of_closed hopen hlen, if_pos hmax]
    · rw [if_neg hmax, if_pos rfl, hb]
      cases hf : Frame.codec.decode? ((b :: rest).take scan.position) with
      | none => exact .error fun ending more => by rw [hb, frameOf_of_closed hopen hlen, if_neg hmax, hf]
      | some f => exact .frame rfl rfl fun ending more => by rw [hb, frameOf_of_closed hopen hlen, if_neg hmax, hf]
  | false =>
    obtain ⟨hpos, hstays⟩ := FrameScan.staysOpen_of_not_closed hmark hc
    by_cases hmax : d.maxFrame < (b :: rest).length
    · rw [hpos, if_pos hmax]
      exact .error fun ending more => by rw [hb]; exact frameOf_of_staysOpen_large hopen hstays hmax
    · rw [hpos, if_neg hmax, if_neg Bool.false_ne_true]
      refine .incomplete rfl ⟨fun h0 => ?_, fun _ => ⟨b, rest, hb, ho⟩, fun more => ?_⟩ (fun ending => ?_)
        fun _ _ => rfl
      · rw [hpos] at h0; cases h0
      · dsimp only
        rw [hpos, hb, FrameScan.advance_append_of_open hc, List.drop_left' rfl]
      · rw [hb]; exact frameOf_of_staysOpen hopen hstays hmax

theorem agrees_next? (h : d.Resumable) : Agrees d d.next? := by
  unfold next? begin
  by_cases h0 : d.scan.position = 0
  · rw [if_pos h0]
    have hfresh : Resumable { d with buffer := d.buffer.dropWhile isSpace } := .of_fresh (h.fresh h0)
    have hhead := List.head?_dropWhile_not isSpace d.buffer
    refine .of_dropWhile ?_
    cases hb : d.buffer.dropWhile isSpace with
    | nil =>
      rw [hb] at hfresh
      exact .incomplete rfl hfresh (fun _ => rfl) fun _ _ => rfl
    | cons b rest =>
      rw [hb] at hfresh hhead
      by_cases ho : opensFrame b = true
      · simp only [ho, if_true]
        exact agrees_scanFrame hfresh rfl ho
      · have ho' : isOpening b = false := Bool.eq_false_iff.2 fun hopen =>
          ho (opensFrame_iff.2 (FrameScan.markOf_eq_opening.2 hopen))
        simp only [ho, Bool.false_eq_true, if_false]
        exact .error fun ending more => frameOf_of_not_opens hhead ho'
  · rw [if_neg h0]
    obtain ⟨b, rest, hb, ho⟩ := h.opens h0
    exact agrees_scanFrame h hb ho

end FrameDecoder

/-! ### Bodies -/

namespace Body

/-- The bytes that a body gives before reading it fails or the token is raised meanwhile. -/
def content : Body → Bytes
  | [] => []
  | .bytes bs :: body => bs ++ content body
  | .pending :: body => content body
  | .failure _ :: _ | .interrupt :: _ => []

/-- Why no more than the content comes. -/
def ending : Body → StreamError
  | [] => .unexpectedEnd
  | .bytes _ :: body | .pending :: body => ending body
  | .failure text :: _ => .io text
  | .interrupt :: _ => .cancelled

theorem content_pieces (pieces : List Bytes) : content (pieces.map .bytes) = pieces.flatten := by
  induction pieces with
  | nil => rfl
  | cons bs pieces ih => rw [List.map_cons, content, ih, List.flatten_cons]

theorem ending_pieces (pieces : List Bytes) : ending (pieces.map .bytes) = .unexpectedEnd := by
  induction pieces with
  | nil => rfl
  | cons bs pieces ih => rw [List.map_cons, ending, ih]

end Body

namespace FrameDecoder
open WholeInput
variable {d : FrameDecoder}

/-- Reading on comes to the first frame of what is buffered and what the body gives. -/
theorem nextFrom_cases (h : d.Resumable) (body : Body) :
    (∃ e, d.nextFrom body = .error e ∧
      frameOf d.maxFrame body.ending (d.buffer ++ body.content) = .error e) ∨
    ∃ f d' body', d.nextFrom body = .ok (f, d', body') ∧
      frameOf d.maxFrame body.ending (d.buffer ++ body.content) = .ok (f, d'.buffer ++ body'.content) ∧
      d'.maxFrame = d.maxFrame ∧ d'.scan = {} ∧ body'.ending = body.ending := by
  induction body generalizing d with
  | nil =>
    have hn := agrees_next? h
    rw [nextFrom]
    generalize d.next? = r at hn
    cases hn with
    | error hf => exact .inl ⟨_, rfl, hf _ _⟩
    | frame hmax hscan hf => exact .inr ⟨_, _, _, rfl, hf _ _, hmax, hscan, rfl⟩
    | incomplete _ _ hend _ =>
      refine .inl ⟨_, rfl, ?_⟩
      rw [Body.content, List.append_nil]; exact hend _
  | cons event body ih =>
    have hn := agrees_next? h
    rw [nextFrom]
    generalize d.next? = r at hn
    cases hn with
    | error hf => exact .inl ⟨_, rfl, hf _ _⟩
    | frame hmax hscan hf => exact .inr ⟨_, _, _, rfl, hf _ _, hmax, hscan, rfl⟩
    | @incomplete d' hmax hd hend hf =>
      cases event with
      | bytes bs =>
        have hbuf : (d'.receive bs).buffer ++ Body.content body = d'.buffer ++ (bs ++ Body.content body) :=
          List.append_assoc ..
        rw [Body.content, Body.ending, ← hf, ← hmax, ← hbuf]
        exact ih (hd.receive bs)
      | pending =>
        rw [Body.content, Body.ending, ← hf, ← hmax]
        exact ih hd
      | failure text =>
        refine .inl ⟨_, rfl, ?_⟩
        rw [Body.content, List.append_nil]; exact hend _
      | interrupt =>
        refine .inl ⟨_, rfl, ?_⟩
        rw [Body.content, List.append_nil]; exact hend _

end FrameDecoder

/-! ### Runs -/

namespace Stream
open WholeInput

/-- A stream between two frames goes on to hand out the frames of its whole input. -/
theorem runFrom_eq_run {s : Stream} (hphase : s.phase.isTerminal = false) (hd : s.decoder.scan = {})
    (received : Nat) :
    s.runFrom false (fun _ => false) received =
      let whole := WholeInput.run s.decoder.maxFrame s.body.ending (s.decoder.buffer ++ s.body.content)
      ⟨whole.delivered, whole.result.map (s.frames + ·)⟩ := by
  induction hu : s.unread using Nat.strongRecOn generalizing s received with
  | ind u ih =>
    subst hu
    rcases FrameDecoder.nextFrom_cases (.of_fresh hd) s.body with
      ⟨e, hn, hw⟩ | ⟨f, d', body', hn, hw, hmax, hscan, hend⟩
    · rw [runFrom_of_error (next_of_error hphase hn), run_of_error hw]; rfl
    · have hnext := next_of_ok hphase hn
      have hlt := unread_next hnext
      rw [runFrom_of_some hnext]
      cases hf : f.isFinal with
      | true =>
        have hdone : (s.after f d' body').phase.isTerminal = true := by simp only [after, hf, if_true]; rfl
        have hframes : (s.after f d' body').frames = s.frames + 1 := by simp only [after, hf, if_true]; rfl
        rw [run_of_final hw hf, runFrom_of_none (next_of_isTerminal hdone), hframes]; rfl
      | false =>
        have hafter : s.after f d' body' =
            { phase := .streaming, decoder := d', body := body', frames := s.frames + 1 } := by
          simp only [after, hf, Bool.false_eq_true, if_false]
        rw [hafter] at hlt ⊢
        rw [run_of_ok hw hf, Bool.or_self, ih _ hlt rfl hscan _ rfl]
        dsimp only
        rw [hmax, hend]
        generalize WholeInput.run .. = later
        cases later.result with
        | error e => rfl
        | ok n => simp [Except.map]; omega

/-- A new stream whose body comes in these pieces. -/
def ofPieces (maxFrame : Nat) (pieces : List Bytes) : Stream :=
  { body := pieces.map .bytes, decoder := { maxFrame } }

theorem runAll_eq_run (maxFrame : Nat) (pieces : List Bytes) :
    (ofPieces maxFrame pieces).runAll = WholeInput.run maxFrame .unexpectedEnd pieces.flatten := by
  have h := runFrom_eq_run (s := ofPieces maxFrame pieces) rfl rfl 0
  simp only [ofPieces, Body.ending_pieces, Body.content_pieces, List.nil_append] at h
  rw [runAll, Stream.run, ofPieces, h]
  generalize WholeInput.run .. = whole
  rcases whole with ⟨delivered, e | n⟩
  · rfl
  · simp only [Except.map, Nat.zero_add]

/-- A stream comes to what its whole input says, however that is cut into pieces and whatever comes after
a final frame. -/
theorem runAll_ofPieces (maxFrame : Nat) (pieces : List Bytes) :
    (ofPieces maxFrame pieces).runAll = WholeInput.run maxFrame .unexpectedEnd pieces.flatten ∧
    (∀ pieces' : List Bytes, pieces'.flatten = pieces.flatten →
      (ofPieces maxFrame pieces').runAll = (ofPieces maxFrame pieces).runAll) ∧
    ∀ (later : List Bytes) (n : Nat), (ofPieces maxFrame pieces).runAll.result = .ok n →
      (ofPieces maxFrame (pieces ++ later)).runAll = (ofPieces maxFrame pieces).runAll := by
  refine ⟨runAll_eq_run maxFrame pieces, fun pieces' h => ?_, fun later n h => ?_⟩
  · rw [runAll_eq_run, runAll_eq_run, h]
  · rw [runAll_eq_run] at h
    rw [runAll_eq_run, runAll_eq_run, List.flatten_append, WholeInput.run_append_of_ok h]

/-- The backslash and the quote it escapes are in different pieces. -/
def cutInEscape : List Bytes :=
  [utf8Bytes "\x7b\"errors\":[\"\\", utf8Bytes "\"]\"],\"final\":true\x7d"]

theorem runAll_cutInEscape :
    (ofPieces 64 cutInEscape).runAll = WholeInput.run 64 .unexpectedEnd cutInEscape.flatten ∧
    (ofPieces 64 [cutInEscape.flatten]).runAll = (ofPieces 64 cutInEscape).runAll ∧
    (ofPieces 64 cutInEscape).runAll.result.toOption = some 1 ∧
    (ofPieces 64 (cutInEscape ++ [[0x5D]])).runAll = (ofPieces 64 cutInEscape).runAll := by
  obtain ⟨hwhole, hcut, hlater⟩ := runAll_ofPieces 64 cutInEscape
  have hcount : (ofPieces 64 cutInEscape).runAll.result.toOption = some 1 := by decide +kernel
  refine ⟨hwhole, hcut _ (by decide), hcount, ?_⟩
  cases hresult : (ofPieces 64 cutInEscape).runAll.result with
  | ok n => exact hlater _ n hresult
  | error e => rw [hresult] at hcount; cases hcount

end Stream

end ClusterMetrics
