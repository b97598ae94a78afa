import ClusterMetrics.Proofs.Json.ReaderGrammar
import ClusterMetrics.Proofs.Stream.WholeInput

/-! # Scanning the texts of objects and arrays

Within an open bracket the scan passes over any part of a JSON text and is as deep after it as before. The
text of an object or an array is therefore closed by its last byte and by none before it
(`FrameScan.advance_containerText`). Main statement: a stream of such texts, with white space between them,
hands out what each of them stands for (`Stream.runAll_passages`). -/

namespace ClusterMetrics

namespace FrameScan
open Json

/-- Scanned within an open bracket and outside of strings, the text changes nothing but the position. -/
def Passes (text : Bytes) : Prop :=
  ∀ position depth rest, (FrameScan.mk position (depth + 1) false false).advance (text ++ rest) =
    (FrameScan.mk (position + text.length) (depth + 1) false false).advance rest

/-! ### Single bytes -/

section
variable {position depth : Nat} {b : UInt8} {rest : Bytes}

theorem advance_text (h : markOf b = .text) :
    (mk position (depth + 1) false false).advance (b :: rest) =
      (mk (position + 1) (depth + 1) false false).advance rest := by
  simp [advance, closesAt, step, h]

theorem advance_opening (h : markOf b = .opening) :
    (mk position depth false false).advance (b :: rest) =
      (mk (position + 1) (depth + 1) false false).advance rest := by
  simp [advance, closesAt, step, h]

theorem advance_closing (h : markOf b = .closing) :
    (mk position (depth + 2) false false).advance (b :: rest) =
      (mk (position + 1) (depth + 1) false false).advance rest := by
  simp [advance, closesAt, step, h]

theorem advance_closing_last (h : markOf b = .closing) :
    (mk position 1 false false).advance (b :: rest) = (mk (position + 1) 0 false false, true) := by
  simp [advance, closesAt, step, h]

theorem advance_quote {inString : Bool} :
    (mk position depth inString false).advance (Byte.quote :: rest) =
      (mk (position + 1) depth (!inString) false).advance rest := by
  have h : markOf Byte.quote = .quote := by decide
  cases inString <;> simp [advance, closesAt, step, h]

theorem advance_plain (hq : b ≠ Byte.quote) (hs : b ≠ Byte.backslash) :
    (mk position depth true false).advance (b :: rest) = (mk (position + 1) depth true false).advance rest := by
  rw [ne_eq, ← markOf_eq_quote] at hq
  rw [ne_eq, ← markOf_eq_backslash] at hs
  have hc : (mk position depth true false).closesAt b = false := rfl
  rw [advance, hc, if_neg Bool.false_ne_true, step]
  cases hm : markOf b <;> simp_all

theorem advance_escaped :
    (mk position depth true false).advance (Byte.backslash :: b :: rest) =
      (mk (position + 2) depth true false).advance rest := by
  have h : markOf Byte.backslash = .backslash := by decide
  simp [advance, closesAt, step, h]

end

/-! ### Strings -/

theorem ne_of_isHexDigit {d : UInt8} (h : Byte.isHexDigit d = true) : d ≠ Byte.quote ∧ d ≠ Byte.backslash := by
  constructor <;> rintro rfl <;> exact absurd h (by decide)

theorem advance_plains {text : Bytes} (h : ∀ b ∈ text, b ≠ Byte.quote ∧ b ≠ Byte.backslash)
    (position depth : Nat) (rest : Bytes) :
    (mk position depth true false).advance (text ++ rest) =
      (mk (position + text.length) depth true false).advance rest := by
  induction text generalizing position with
  | nil => rfl
  | cons b text ih =>
    obtain ⟨⟨hq, hs⟩, htext⟩ := List.forall_mem_cons.1 h
    rw [List.cons_append, advance_plain hq hs, ih htext, List.length_cons]
    congr 2; omega

/-- Only its end closes a string, whatever its bytes and escapes. -/
theorem advance_stringText {text : Bytes} (h : StringText text) (position depth : Nat) (rest : Bytes) :
    (mk position depth true false).advance (text ++ rest) =
      (mk (position + text.length) depth true false).advance rest := by
  induction h generalizing position with
  | nil => rfl
  | @plain b text hq hs _ _ ih =>
    rw [List.cons_append, advance_plain hq hs, ih, List.length_cons]
    congr 2; omega
  | @named c text _ _ ih =>
    rw [List.cons_append, List.cons_append, advance_escaped, ih, List.length_cons, List.length_cons]
    congr 2; omega
  | @unicode digits text hlen hd _ ih =>
    have hplain : ∀ b ∈ digits, b ≠ Byte.quote ∧ b ≠ Byte.backslash := fun b hb => ne_of_isHexDigit (hd b hb)
    rw [List.cons_append, List.cons_append, List.cons_append, List.cons_append, advance_escaped,
      List.append_assoc, advance_plains hplain, ih]
    congr 2
    simp only [List.length_cons, List.length_append]; omega

/-! ### Phrases -/

namespace Passes
variable {a b text : Bytes}

theorem nil : Passes [] := fun _ _ _ => rfl

theorem append (ha : Passes a) (hb : Passes b) : Passes (a ++ b) := by
  intro position depth rest
  rw [List.append_assoc, ha, hb, List.length_append, Nat.add_assoc]

theorem cons {x : UInt8} (hx : markOf x = .text) (h : Passes text) : Passes (x :: text) := by
  intro position depth rest
  rw [List.cons_append, advance_text hx, h, List.length_cons]
  congr 2; omega

theorem of_forall (h : ∀ x ∈ text, markOf x = .text) : Passes text := by
  induction text with
  | nil => exact nil
  | cons x text ih =>
    obtain ⟨hx, htext⟩ := List.forall_mem_cons.1 h
    exact cons hx (ih htext)

theorem of_all (h : text.all (fun x => decide (markOf x = .text)) = true) : Passes text :=
  of_forall fun x hx => of_decide_eq_true (List.all_eq_true.1 h x hx)

theorem quoted (h : StringText text) : Passes (Byte.quote :: text ++ [Byte.quote]) := by
  intro position depth rest
  rw [List.cons_append, List.cons_append, List.append_assoc, advance_quote, Bool.not_false,
    advance_stringText h, List.singleton_append, advance_quote, Bool.not_true]
  congr 2
  simp only [List.length_cons, List.length_append, List.length_nil]; omega

theorem bracketed {o c : UInt8} (ho : markOf o = .opening) (hc : markOf c = .closing) (h : Passes text) :
    Passes (o :: text ++ [c]) := by
  intro position depth rest
  rw [List.cons_append, List.cons_append, List.append_assoc, advance_opening ho, h, List.singleton_append,
    advance_closing hc]
  congr 2
  simp only [List.length_cons, List.length_append, List.length_nil]; omega

theorem blanks (h : Blanks text) : Passes text := by
  refine of_forall fun x hx => ?_
  have hx' := h x hx
  simp only [Byte.isBlank, Bool.or_eq_true, beq_iff_eq] at hx'
  rcases hx' with ((rfl | rfl) | rfl) | rfl <;> decide

end Passes

/-! ### Numbers -/

theorem markOf_of_isDigit {d : UInt8} (h : Byte.isDigit d = true) : markOf d = .text := by
  have hne : ∀ b, Byte.isDigit b = false → d ≠ b := fun b hb hd => by rw [hd, hb] at h; cases h
  rw [markOf, if_neg (hne _ (by decide)), if_neg (hne _ (by decide)),
    if_neg (not_or.2 ⟨hne _ (by decide), hne _ (by decide)⟩),
    if_neg (not_or.2 ⟨hne _ (by decide), hne _ (by decide)⟩)]

theorem markOf_of_isExponent {e : UInt8} (h : Byte.isExponent e = true) : markOf e = .text := by
  simp only [Byte.isExponent, Bool.or_eq_true, beq_iff_eq] at h
  rcases h with rfl | rfl <;> decide

namespace Passes
variable {text : Bytes}

theorem digits (h : Digits text) : Passes text := of_forall fun d hd => markOf_of_isDigit (h d hd)

theorem whole (h : WholeText text) : Passes text := by
  cases h with
  | zero => exact cons (by decide) nil
  | digits hd _ h => exact cons (markOf_of_isDigit hd) (digits h)

theorem fraction (h : FractionText text) : Passes text := by
  cases h with
  | absent => exact nil
  | digits _ h => exact cons (by decide) (digits h)

theorem exponent (h : ExponentText text) : Passes text := by
  cases h with
  | absent => exact nil
  | unsigned he _ h => exact cons (markOf_of_isExponent he) (digits h)
  | signed he hs _ h =>
    refine cons (markOf_of_isExponent he) (cons ?_ (digits h))
    rcases hs with rfl | rfl <;> decide

theorem unsigned (h : UnsignedText text) : Passes text := by
  cases h with
  | mk hw hf he => exact ((whole hw).append (fraction hf)).append (exponent he)

theorem number (h : NumberText text) : Passes text := by
  cases h with
  | positive h => exact unsigned h
  | negative h => exact cons (by decide) (unsigned h)

end Passes

/-- The scan passes over every part of a JSON text. -/
theorem passes_of_derives {p : Phrase} {text : Bytes} (h : Derives p text) : Passes text := by
  induction h with
  | null | true | false => exact .of_all (by decide)
  | number h => exact .number h
  | string h => exact .quoted h
  | emptyArray h => exact .bracketed (by decide) (by decide) (.blanks h)
  | array _ ih => exact .bracketed (by decide) (by decide) ih
  | emptyObject h => exact .bracketed (by decide) (by decide) (.blanks h)
  | object _ ih => exact .bracketed (by decide) (by decide) ih
  | item hb _ ha ih => exact ((Passes.blanks hb).append ih).append (.blanks ha)
  | lastItem _ ih => exact ih
  | moreItems _ _ ih ihs => exact ih.append (.cons (by decide) ihs)
  | member hb hk ha _ ih =>
    exact (((Passes.blanks hb).append (.quoted hk)).append (.blanks ha)).append (.cons (by decide) ih)
  | lastMember _ ih => exact ih
  | moreMembers _ _ ih ihs => exact ih.append (.cons (by decide) ihs)

/-! ### Objects and arrays -/

theorem advance_bracketed {o c : UInt8} {text : Bytes} (ho : markOf o = .opening) (hc : markOf c = .closing)
    (h : Passes text) :
    ({} : FrameScan).advance (o :: text ++ [c]) = (mk (o :: text ++ [c]).length 0 false false, true) := by
  rw [List.cons_append, advance_opening ho, h, advance_closing_last hc]
  congr 2
  simp only [List.length_cons, List.length_append, List.length_nil]; omega

/-- The text of an object or an array between the brackets around it. -/
theorem exists_bracketed {text : Bytes} (h : ContainerText text) :
    ∃ o body c, text = o :: body ++ [c] ∧ markOf o = .opening ∧ markOf c = .closing ∧ Passes body := by
  cases h with
  | array h =>
    cases h with
    | emptyArray h => exact ⟨_, _, _, rfl, by decide, by decide, .blanks h⟩
    | array h => exact ⟨_, _, _, rfl, by decide, by decide, passes_of_derives h⟩
  | object h =>
    cases h with
    | emptyObject h => exact ⟨_, _, _, rfl, by decide, by decide, .blanks h⟩
    | object h => exact ⟨_, _, _, rfl, by decide, by decide, passes_of_derives h⟩

theorem advance_containerText {text : Bytes} (h : ContainerText text) :
    ({} : FrameScan).advance text = (mk text.length 0 false false, true) := by
  obtain ⟨o, body, c, rfl, ho, hc, hbody⟩ := exists_bracketed h
  exact advance_bracketed ho hc hbody

theorem not_closed_of_prefix {text start : Bytes} (h : ContainerText text) (hs : start <+: text)
    (hne : start ≠ text) : (({} : FrameScan).advance start).2 = false := by
  obtain ⟨rest, rfl⟩ := hs
  refine Bool.eq_false_iff.2 fun hclosed => hne ?_
  have hall := advance_containerText h
  have hle := position_advance_le {} start
  rw [advance_append_of_closed hclosed] at hall
  rw [hall, List.length_append] at hle
  have hrest : rest = [] := List.eq_nil_of_length_eq_zero (by dsimp only at hle; omega)
  rw [hrest, List.append_nil]

end FrameScan

/-! ### Streams of texts -/

/-- The text of a frame, with the white space before it. -/
structure Passage where
  gap : Bytes
  text : Bytes
  frame : Frame

namespace Passage

def bytes (p : Passage) : Bytes := p.gap ++ p.text

/-- The text is that of an object or an array, stands for the frame, and is not too long. -/
structure Sound (maxFrame : Nat) (p : Passage) : Prop where
  gap : ∀ b ∈ p.gap, FrameDecoder.isSpace b = true
  container : Json.ContainerText p.text
  decodes : Frame.codec.decode? p.text = some p.frame
  fits : p.text.length ≤ maxFrame

/-- What decodes is a text of the grammar; that nothing is around it shows at its ends. -/
theorem sound_of_decodes {maxFrame : Nat} {gap text : Bytes} {frame : Frame}
    (hgap : ∀ b ∈ gap, FrameDecoder.isSpace b = true) (hd : Frame.codec.decode? text = some frame)
    (hhead : text.head? = some Json.Byte.openBrace ∨ text.head? = some Json.Byte.openBracket)
    (hlast : text.getLast?.any Json.Byte.isBlank = false) (hfits : text.length ≤ maxFrame) :
    (Passage.mk gap text frame).Sound maxFrame := by
  obtain ⟨v, hv, -⟩ := Option.bind_eq_some_iff.1 hd
  exact ⟨hgap, Json.containerText_of_parse? hv hhead hlast, hd, hfits⟩

end Passage

namespace WholeInput
open Brackets
variable {maxFrame : Nat} {ending : StreamError} {p : Passage}

theorem frameOf_passage (h : p.Sound maxFrame) (rest : Bytes) :
    frameOf maxFrame ending (p.bytes ++ rest) = .ok (p.frame, rest) := by
  have hgap : p.gap.dropWhile FrameDecoder.isSpace = [] := by
    rw [← List.append_nil p.gap, List.dropWhile_append_of_pos h.gap, List.dropWhile_nil]
  have hclosed := FrameScan.advance_containerText h.container
  obtain ⟨o, body, c, htext, ho, -, -⟩ := FrameScan.exists_bracketed h.container
  rw [Passage.bytes, List.append_assoc, ← frameOf_dropWhile, hgap, List.nil_append]
  have hlen : closedLength? (p.text ++ rest) = some p.text.length := by
    rw [htext, List.cons_append] at hclosed ⊢
    rw [FrameScan.closedLength?_of_closed ho (by rw [hclosed]), hclosed]
  have hopen : p.text ++ rest = o :: (body ++ [c] ++ rest) := by rw [htext]; simp
  rw [hopen, frameOf_of_opens (FrameScan.markOf_eq_opening.1 ho), ← hopen, hlen]
  simp only [if_neg (Nat.not_lt.2 h.fits), List.take_left, List.drop_left, h.decodes]

theorem run_passages {earlier : List Passage} {last : Passage} (trailing : Bytes)
    (hearlier : ∀ p ∈ earlier, p.Sound maxFrame ∧ p.frame.isFinal = false) (hlast : last.Sound maxFrame)
    (hfinal : last.frame.isFinal = true) :
    run maxFrame ending ((earlier ++ [last]).flatMap Passage.bytes ++ trailing) =
      ⟨(earlier ++ [last]).map Passage.frame, .ok (earlier.length + 1)⟩ := by
  induction earlier with
  | nil =>
    rw [List.nil_append, List.flatMap_singleton]
    exact run_of_final (frameOf_passage hlast trailing) hfinal
  | cons p earlier ih =>
    obtain ⟨⟨hp, hpf⟩, hearlier⟩ := List.forall_mem_cons.1 hearlier
    rw [List.cons_append, List.flatMap_cons, List.append_assoc,
      run_of_ok (frameOf_passage hp _) hpf, ih hearlier]
    rfl

end WholeInput

namespace Stream

theorem runAll_passages (maxFrame : Nat) :
    (∀ text, Json.ContainerText text →
      ({} : FrameScan).advance text = (⟨text.length, 0, false, false⟩, true) ∧
      ∀ start, start <+: text → start ≠ text → (({} : FrameScan).advance start).2 = false) ∧
    ∀ (earlier : List Passage) (last : Passage) (trailing : Bytes) (pieces : List Bytes),
      (∀ p ∈ earlier, p.Sound maxFrame ∧ p.frame.isFinal = false) → last.Sound maxFrame →
      last.frame.isFinal = true →
      pieces.flatten = (earlier ++ [last]).flatMap Passage.bytes ++ trailing →
      (ofPieces maxFrame pieces).runAll =
        ⟨(earlier ++ [last]).map Passage.frame, .ok (earlier ++ [last]).length⟩ := by
  refine ⟨fun text h => ?_, fun earlier last trailing pieces hearlier hlast hfinal hpieces => ?_⟩
  · exact ⟨FrameScan.advance_containerText h, fun start hs hne => FrameScan.not_closed_of_prefix h hs hne⟩
  · rw [runAll_eq_run, hpieces, WholeInput.run_passages trailing hearlier hlast hfinal, List.length_append,
      List.length_singleton]

/-- Brackets and an escaped quote in a string, and a member that is ignored. -/
def bracketsInString : Bytes := utf8Bytes "\x7b\"errors\":[\"]\\\"\x7b\"],\"more\":[\x7b\"[\":[0]\x7d]\x7d"

def finalText : Bytes := utf8Bytes "\x7b\"final\":true\x7d"

theorem runAll_bracketsInString :
    ∃ first last : Frame, first.errors = ["]\"\x7b"] ∧ last.isFinal = true ∧
      (ofPieces 64 [bracketsInString ++ [0x0A], finalText ++ [0x7D]]).runAll = ⟨[first, last], .ok 2⟩ := by
  have hfirst : (Frame.codec.decode? bracketsInString).map (fun f => (f.errors, f.isFinal)) =
      some (["]\"\x7b"], false) := by decide +kernel
  have hlast : (Frame.codec.decode? finalText).map Frame.isFinal = some true := by decide +kernel
  obtain ⟨first, hfirst, herrors⟩ := Option.map_eq_some_iff.1 hfirst
  obtain ⟨last, hlast, hfinal⟩ := Option.map_eq_some_iff.1 hlast
  obtain ⟨herrors, hopen⟩ := Prod.mk.inj herrors
  have hs : (Passage.mk [] bracketsInString first).Sound 64 :=
    Passage.sound_of_decodes (List.all_eq_true.1 rfl) hfirst (by decide) (by decide) (by decide)
  have hs' : (Passage.mk [0x0A] finalText last).Sound 64 :=
    Passage.sound_of_decodes (List.all_eq_true.1 rfl) hlast (by decide) (by decide) (by decide)
  refine ⟨first, last, herrors, hfinal, ?_⟩
  exact (runAll_passages 64).2 [⟨[], bracketsInString, first⟩] ⟨[0x0A], finalText, last⟩ [0x7D] _
    (List.forall_mem_singleton.2 ⟨hs, hopen⟩) hs' hfinal rfl

end Stream

end ClusterMetrics
