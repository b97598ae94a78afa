import Mathlib.Data.List.Basic
import ClusterMetrics.Proofs.Json.ReaderGrammar

/-! # Every text of the grammar is read

Read forwards, each phrase takes the reader from one state to another, whatever containers are open around it. So the
reader takes exactly the texts of the grammar (`parse?_eq_some_iff`). -/

namespace ClusterMetrics.Json

/-! ### Numbers -/

namespace NumberPart
variable {part : NumberPart} {text : Bytes}

/-- How far the number has been read after some more bytes, if they can belong to it. -/
def run (part : NumberPart) (text : Bytes) : Option NumberPart := text.foldlM next? part

theorem run_append (part : NumberPart) (a b : Bytes) : part.run (a ++ b) = (part.run a).bind (·.run b) := by
  rw [run, List.foldlM_append]; rfl

theorem run_digits (hstep : ∀ d, Byte.isDigit d = true → part.next? d = some part) (h : Digits text) :
    part.run text = some part := by
  induction text with
  | nil => rfl
  | cons d text ih =>
    obtain ⟨hd, hds⟩ := List.forall_mem_cons.1 h
    rw [run, List.foldlM_cons, hstep d hd]
    exact ih hds

theorem next?_whole {d : UInt8} (h : Byte.isDigit d = true) : whole.next? d = some whole := by simp [next?, h]

theorem next?_fraction {d : UInt8} (h : Byte.isDigit d = true) : fraction.next? d = some fraction := by simp [next?, h]

theorem next?_power {d : UInt8} (h : Byte.isDigit d = true) : power.next? d = some power := by simp [next?, h]

theorem isExponent_cases {e : UInt8} (h : Byte.isExponent e = true) : e = 0x65 ∨ e = 0x45 := by
  simpa [Byte.isExponent] using h

/-- A part after which a fraction or an exponent may come. -/
def IsInteger (part : NumberPart) : Prop := part = zero ∨ part = whole

theorem run_fraction (hp : part.IsInteger) (h : FractionText text) :
    ∃ p, part.run text = some p ∧ (p = zero ∨ p = whole ∨ p = fraction) := by
  cases h with
  | absent => exact ⟨part, rfl, by rcases hp with rfl | rfl <;> simp⟩
  | @digits ds hne hds =>
    cases ds with
    | nil => exact absurd rfl hne
    | cons d ds =>
      obtain ⟨hd, hds⟩ := List.forall_mem_cons.1 hds
      have hpoint : part.next? Byte.point = some point := by rcases hp with rfl | rfl <;> rfl
      have hfirst : point.next? d = some fraction := by simp [next?, hd]
      refine ⟨fraction, ?_, .inr (.inr rfl)⟩
      rw [run, List.foldlM_cons, hpoint, Option.bind_eq_bind, Option.bind_some, List.foldlM_cons, hfirst]
      exact run_digits (fun _ => next?_fraction) hds

theorem run_exponent (hp : part = zero ∨ part = whole ∨ part = fraction) (h : ExponentText text) :
    ∃ p, part.run text = some p ∧ p.isComplete = true := by
  have he : ∀ e, Byte.isExponent e = true → part.next? e = some exponent := by
    intro e he
    rcases isExponent_cases he with rfl | rfl <;> rcases hp with rfl | rfl | rfl <;> rfl
  cases h with
  | absent => exact ⟨part, rfl, by rcases hp with rfl | rfl | rfl <;> rfl⟩
  | @unsigned e ds hexp hne hds =>
    cases ds with
    | nil => exact absurd rfl hne
    | cons d ds =>
      obtain ⟨hd, hds⟩ := List.forall_mem_cons.1 hds
      have hsign : (d == Byte.plus || d == Byte.minus) = false := by
        rw [Bool.or_eq_false_iff, beq_eq_false_iff_ne, beq_eq_false_iff_ne]
        constructor <;> rintro rfl <;> cases hd
      have hfirst : exponent.next? d = some power := by simp [next?, hsign, hd]
      refine ⟨power, ?_, rfl⟩
      rw [run, List.foldlM_cons, he e hexp, Option.bind_eq_bind, Option.bind_some, List.foldlM_cons, hfirst]
      exact run_digits (fun _ => next?_power) hds
  | @signed e s ds hexp hs hne hds =>
    cases ds with
    | nil => exact absurd rfl hne
    | cons d ds =>
      obtain ⟨hd, hds⟩ := List.forall_mem_cons.1 hds
      have hsign : exponent.next? s = some sign := by rcases hs with rfl | rfl <;> rfl
      have hfirst : sign.next? d = some power := by simp [next?, hd]
      refine ⟨power, ?_, rfl⟩
      rw [run, List.foldlM_cons, he e hexp, Option.bind_eq_bind, Option.bind_some, List.foldlM_cons, hsign,
        Option.bind_eq_bind, Option.bind_some, List.foldlM_cons, hfirst]
      exact run_digits (fun _ => next?_power) hds

/-- After its first digit a number is read to an end. -/
theorem run_unsigned (h : UnsignedText text) : ∃ d ds, text = d :: ds ∧ Byte.isDigit d = true ∧
    ∃ p, (if d == Byte.zero then zero else whole).run ds = some p ∧ p.isComplete = true := by
  obtain @⟨w, f, e, hw, hf, he⟩ := h
  cases hw with
  | zero =>
    obtain ⟨q, hq, hparts⟩ := run_fraction (.inl rfl) hf
    obtain ⟨p, hp, hcomplete⟩ := run_exponent hparts he
    refine ⟨Byte.zero, f ++ e, rfl, rfl, p, ?_, hcomplete⟩
    rw [beq_self_eq_true, if_pos rfl, run_append, hq, Option.bind_some, hp]
  | @digits d ds hd hzero hds =>
    obtain ⟨q, hq, hparts⟩ := run_fraction (.inr rfl) hf
    obtain ⟨p, hp, hcomplete⟩ := run_exponent hparts he
    refine ⟨d, ds ++ f ++ e, rfl, hd, p, ?_, hcomplete⟩
    rw [beq_eq_false_iff_ne.2 hzero, if_neg Bool.false_ne_true, run_append, run_append,
      run_digits (fun _ => next?_whole) hds, Option.bind_some, hq, Option.bind_some, hp]

end NumberPart

namespace Reader
variable {cs : List Container} {text : Bytes} {v : Json} {r : Reader}

theorem run_cons (r : Reader) (b : UInt8) (text : Bytes) : r.run (b :: text) = (r.step b).bind (·.run text) := rfl

theorem run_append (r : Reader) (a b : Bytes) : r.run (a ++ b) = (r.run a).bind (·.run b) := by
  rw [run, List.foldlM_append]; rfl

theorem run_number {part p : NumberPart} {acc : Bytes} (h : part.run text = some p) :
    run ⟨cs, .number part acc⟩ text = some ⟨cs, .number p (text.reverse ++ acc)⟩ := by
  induction text generalizing part acc with
  | nil => cases h; rfl
  | cons b text ih =>
    rw [NumberPart.run, List.foldlM_cons] at h
    obtain ⟨q, hq, h⟩ := Option.bind_eq_some_iff.1 h
    have hstep : step ⟨cs, .number part acc⟩ b = some ⟨cs, .number q (b :: acc)⟩ := by simp [step, hq]
    rw [run_cons, hstep, Option.bind_some, ih h, List.reverse_cons, List.append_assoc]
    rfl

/-! ### Strings -/

theorem step_string {isKey : Bool} {escape e : Escape} {acc : Bytes} {b : UInt8}
    (hq : escape ≠ .none ∨ b ≠ Byte.quote) (h : escape.next? b = some e) :
    step ⟨cs, .string isKey escape acc⟩ b = some ⟨cs, .string isKey e (b :: acc)⟩ := by
  have hne : ¬ (escape = .none ∧ b = Byte.quote) := fun ⟨he, hb⟩ => hq.elim (· he) (· hb)
  simp [step, hne, h]

theorem run_string {isKey : Bool} {acc : Bytes} (h : StringText text) :
    run ⟨cs, .string isKey .none acc⟩ text = some ⟨cs, .string isKey .none (text.reverse ++ acc)⟩ := by
  induction h generalizing acc with
  | nil => rfl
  | @plain b text hquote hbackslash hcontrol h ih =>
    have hnext : Escape.none.next? b = some .none := by simp [Escape.next?, hbackslash, hcontrol]
    rw [run_cons, step_string (.inr hquote) hnext, Option.bind_some, ih]
    simp
  | @named c text hc h ih =>
    have hu : (c == 0x75) = false := by
      rw [beq_eq_false_iff_ne]
      rintro rfl
      exact absurd hc (by decide)
    have hnext : Escape.started.next? c = some .none := by
      rw [Escape.next?, hu, if_neg Bool.false_ne_true, if_pos (List.contains_iff_mem.2 hc)]
    rw [run_cons, step_string (.inr (by decide)) (show Escape.none.next? Byte.backslash = some .started from rfl),
      Option.bind_some, run_cons, step_string (.inl (by decide)) hnext, Option.bind_some, ih]
    simp
  | @unicode digits text hlen hd h ih =>
    obtain ⟨a, b, c, d, rfl⟩ := List.length_eq_four.1 hlen
    simp only [List.forall_mem_cons] at hd
    obtain ⟨ha, hb, hc, hd, -⟩ := hd
    have hmore : ∀ n x, Byte.isHexDigit x = true → (Escape.unicode (n + 2)).next? x = some (.unicode (n + 1)) := by
      intro n x hx
      simp [Escape.next?, hx]
    have hlast : (Escape.unicode 1).next? d = some .none := by simp [Escape.next?, hd]
    show run _ (Byte.backslash :: 0x75 :: a :: b :: c :: d :: text) = _
    rw [run_cons, step_string (.inr (by decide)) (show Escape.none.next? Byte.backslash = some .started from rfl),
      Option.bind_some, run_cons,
      step_string (.inl (by decide)) (show Escape.started.next? 0x75 = some (.unicode 4) from rfl), Option.bind_some,
      run_cons, step_string (.inl (by decide)) (hmore 2 a ha), Option.bind_some,
      run_cons, step_string (.inl (by decide)) (hmore 1 b hb), Option.bind_some,
      run_cons, step_string (.inl (by decide)) (hmore 0 c hc), Option.bind_some,
      run_cons, step_string (.inl (by decide)) hlast, Option.bind_some, ih]
    simp

/-! ### After a value -/

/-- The reader after the text of a value. That a number has ended it does not know yet. -/
inductive AfterValue (cs : List Container) : Json → Reader → Prop where
  | finished (v : Json) : AfterValue cs v (finish cs v)
  | number {part : NumberPart} {text : Bytes} (h : part.isComplete = true) :
      AfterValue cs (.number text.reverse) ⟨cs, .number part text⟩

/-- A blank, a comma or the end of a container. -/
def Delimits (b : UInt8) : Prop :=
  Byte.isBlank b = true ∨ b = Byte.comma ∨ b = Byte.closeBracket ∨ b = Byte.closeBrace

theorem Delimits.cases {b : UInt8} (h : Delimits b) :
    b = 0x20 ∨ b = 0x09 ∨ b = 0x0A ∨ b = 0x0D ∨ b = Byte.comma ∨ b = Byte.closeBracket ∨ b = Byte.closeBrace := by
  simp only [Delimits, Byte.isBlank, Bool.or_eq_true, beq_iff_eq, or_assoc] at h
  exact h

theorem step_finish (cs : List Container) (v : Json) (b : UInt8) :
    step (finish cs v) b = stepAfterValue (finish cs v) b := by
  match cs with
  | [] => rfl
  | .array _ :: _ => rfl
  | .object .. :: _ => rfl

theorem AfterValue.step_eq {b : UInt8} (h : AfterValue cs v r) (hb : Delimits b) :
    r.step b = stepAfterValue (finish cs v) b := by
  cases h with
  | finished v => exact step_finish cs v b
  | @number part text hpart =>
    have hnext : part.next? b = none := by
      rcases hb.cases with rfl | rfl | rfl | rfl | rfl | rfl | rfl <;> cases part <;> rfl
    simp [step, hnext, hpart]

theorem stepAfterValue_blank {b : UInt8} (h : Byte.isBlank b = true) (r : Reader) : stepAfterValue r b = some r :=
  if_pos h

theorem run_finish_blanks (h : Blanks text) (cs : List Container) (v : Json) :
    run (finish cs v) text = some (finish cs v) := by
  induction text with
  | nil => rfl
  | cons b text ih =>
    obtain ⟨hb, htext⟩ := List.forall_mem_cons.1 h
    rw [run_cons, step_finish, stepAfterValue_blank hb, Option.bind_some, ih htext]

theorem AfterValue.run_blanks (h : AfterValue cs v r) (hb : Blanks text) :
    ∃ r', r.run text = some r' ∧ AfterValue cs v r' := by
  cases text with
  | nil => exact ⟨r, rfl, h⟩
  | cons b text =>
    obtain ⟨hb, htext⟩ := List.forall_mem_cons.1 hb
    refine ⟨finish cs v, ?_, .finished v⟩
    rw [run_cons, h.step_eq (.inl hb), stepAfterValue_blank hb, Option.bind_some, run_finish_blanks htext]

theorem AfterValue.run_comma_item {before : List Json} (h : AfterValue (.array before :: cs) v r) :
    r.run (Byte.comma :: text) = run ⟨.array (v :: before) :: cs, .value⟩ text := by
  rw [run_cons, h.step_eq (.inr (.inl rfl))]
  rfl

theorem AfterValue.run_closeBracket {before : List Json} (h : AfterValue (.array before :: cs) v r) :
    r.run [Byte.closeBracket] = some (finish cs (.array (before.reverse ++ [v]))) := by
  rw [run_cons, h.step_eq (.inr (.inr (.inl rfl))), ← List.reverse_cons]
  rfl

theorem AfterValue.run_comma_member {before : List (Bytes × Json)} {key : Bytes}
    (h : AfterValue (.object before key :: cs) v r) :
    r.run (Byte.comma :: text) = run ⟨.object ((key, v) :: before) key :: cs, .key⟩ text := by
  rw [run_cons, h.step_eq (.inr (.inl rfl))]
  rfl

theorem AfterValue.run_closeBrace {before : List (Bytes × Json)} {key : Bytes}
    (h : AfterValue (.object before key :: cs) v r) :
    r.run [Byte.closeBrace] = some (finish cs (.object (before.reverse ++ [(key, v)]))) := by
  rw [run_cons, h.step_eq (.inr (.inr (.inr rfl))), ← List.reverse_cons]
  rfl

theorem AfterValue.value? (h : AfterValue [] v r) : r.value? = some v := by
  cases h with
  | finished v => rfl
  | number hpart => simp [Reader.value?, hpart]

/-! ### Phrases -/

theorem run_blanks {mode : Mode} (hmode : ∀ b, Byte.isBlank b = true → step ⟨cs, mode⟩ b = some ⟨cs, mode⟩)
    (h : Blanks text) : run ⟨cs, mode⟩ text = some ⟨cs, mode⟩ := by
  induction text with
  | nil => rfl
  | cons b text ih =>
    obtain ⟨hb, htext⟩ := List.forall_mem_cons.1 h
    rw [run_cons, hmode b hb, Option.bind_some, ih htext]

theorem run_value_blanks (h : Blanks text) : run ⟨cs, .value⟩ text = some ⟨cs, .value⟩ :=
  run_blanks (fun _ hb => if_pos hb) h

theorem run_key_blanks (h : Blanks text) : run ⟨cs, .key⟩ text = some ⟨cs, .key⟩ :=
  run_blanks (fun _ hb => if_pos hb) h

theorem run_colon_blanks (h : Blanks text) : run ⟨cs, .colon⟩ text = some ⟨cs, .colon⟩ :=
  run_blanks (fun _ hb => if_pos hb) h

theorem run_firstItem_blanks (h : Blanks text) : run ⟨cs, .firstItem⟩ text = some ⟨cs, .firstItem⟩ :=
  run_blanks (fun _ hb => if_pos hb) h

theorem run_firstKey_blanks (h : Blanks text) : run ⟨cs, .firstKey⟩ text = some ⟨cs, .firstKey⟩ :=
  run_blanks (fun _ hb => if_pos hb) h

/-- How the text of a value begins. -/
theorem exists_first_of_value (h : Derives (.value v) text) :
    ∃ b rest, text = b :: rest ∧ Byte.isBlank b = false ∧ b ≠ Byte.closeBracket := by
  cases h with
  | null => exact ⟨_, _, rfl, rfl, by decide⟩
  | true => exact ⟨_, _, rfl, rfl, by decide⟩
  | false => exact ⟨_, _, rfl, rfl, by decide⟩
  | string h => exact ⟨_, _, rfl, rfl, by decide⟩
  | emptyArray h => exact ⟨_, _, rfl, rfl, by decide⟩
  | array h => exact ⟨_, _, rfl, rfl, by decide⟩
  | emptyObject h => exact ⟨_, _, rfl, rfl, by decide⟩
  | object h => exact ⟨_, _, rfl, rfl, by decide⟩
  | number h =>
    have hdigit : ∀ d : UInt8, Byte.isDigit d = true → Byte.isBlank d = false ∧ d ≠ Byte.closeBracket := by
      intro d hd
      constructor
      · rw [Bool.eq_false_iff]
        intro hblank
        simp only [Byte.isBlank, Bool.or_eq_true, beq_iff_eq] at hblank
        rcases hblank with ((rfl | rfl) | rfl) | rfl <;> cases hd
      · rintro rfl
        cases hd
    cases h with
    | positive h =>
      obtain ⟨d, ds, rfl, hd, -⟩ := NumberPart.run_unsigned h
      exact ⟨d, ds, rfl, hdigit d hd⟩
    | negative h => exact ⟨_, _, rfl, rfl, by decide⟩

theorem exists_first_of_item (h : Derives (.item v) text) :
    ∃ before b rest, text = before ++ b :: rest ∧ Blanks before ∧ Byte.isBlank b = false ∧ b ≠ Byte.closeBracket := by
  cases h with
  | @item _ before text after hb h ha =>
    obtain ⟨b, rest, rfl, hblank, hclose⟩ := exists_first_of_value h
    exact ⟨before, b, rest ++ after, by simp, hb, hblank, hclose⟩

theorem exists_first_of_items {vs : List Json} (h : Derives (.items vs) text) :
    ∃ before b rest, text = before ++ b :: rest ∧ Blanks before ∧ Byte.isBlank b = false ∧ b ≠ Byte.closeBracket := by
  cases h with
  | lastItem h => exact exists_first_of_item h
  | moreItems h hs =>
    obtain ⟨before, b, rest, rfl, hfirst⟩ := exists_first_of_item h
    exact ⟨before, b, _, List.append_assoc .., hfirst⟩

theorem exists_first_of_member {key : Bytes} (h : Derives (.member key v) text) :
    ∃ before rest, text = before ++ Byte.quote :: rest ∧ Blanks before := by
  cases h with
  | @member _ _ before after text hb hk ha h => exact ⟨before, _, by simp only [List.append_assoc]; rfl, hb⟩

theorem exists_first_of_members {ms : List (Bytes × Json)} (h : Derives (.members ms) text) :
    ∃ before rest, text = before ++ Byte.quote :: rest ∧ Blanks before := by
  cases h with
  | lastMember h => exact exists_first_of_member h
  | moreMembers h hs =>
    obtain ⟨before, rest, rfl, hb⟩ := exists_first_of_member h
    exact ⟨before, _, List.append_assoc .., hb⟩

/-- The first item of an array is read as any other. -/
theorem run_firstItem {before rest : Bytes} {b : UInt8} (hbefore : Blanks before) (hb : Byte.isBlank b = false)
    (hclose : b ≠ Byte.closeBracket) :
    run ⟨cs, .firstItem⟩ (before ++ b :: rest) = run ⟨cs, .value⟩ (before ++ b :: rest) := by
  have hstep : step ⟨cs, .firstItem⟩ b = step ⟨cs, .value⟩ b := by simp [step, hb, hclose]
  rw [run_append, run_append, run_firstItem_blanks hbefore, run_value_blanks hbefore, Option.bind_some,
    Option.bind_some, run_cons, run_cons, hstep]

theorem run_firstKey {before rest : Bytes} (hbefore : Blanks before) :
    run ⟨cs, .firstKey⟩ (before ++ Byte.quote :: rest) = run ⟨cs, .key⟩ (before ++ Byte.quote :: rest) := by
  rw [run_append, run_append, run_firstKey_blanks hbefore, run_key_blanks hbefore]
  rfl

theorem run_number_rest {part p : NumberPart} (acc : Bytes) (hrun : part.run text = some p)
    (hcomplete : p.isComplete = true) :
    ∃ r, run ⟨cs, .number part acc⟩ text = some r ∧ AfterValue cs (.number (acc.reverse ++ text)) r := by
  refine ⟨_, run_number hrun, ?_⟩
  have hafter : AfterValue cs (.number (text.reverse ++ acc).reverse) ⟨cs, .number p (text.reverse ++ acc)⟩ :=
    .number hcomplete
  rwa [List.reverse_append, List.reverse_reverse] at hafter

theorem run_number_value (h : NumberText text) :
    ∃ r, run ⟨cs, .value⟩ text = some r ∧ AfterValue cs (.number text) r := by
  cases h with
  | positive h =>
    obtain ⟨d, ds, rfl, hd, p, hrun, hcomplete⟩ := NumberPart.run_unsigned h
    have hblank : Byte.isBlank d = false := (exists_first_of_value (.number (.positive h))).elim
      fun b ⟨rest, he, hb, _⟩ => by cases he; exact hb
    have hne : ∀ b : UInt8, Byte.isDigit b = false → (d == b) = false := by
      intro b hb
      rw [beq_eq_false_iff_ne]
      rintro rfl
      rw [hd] at hb
      cases hb
    have hstep : step ⟨cs, .value⟩ d = some ⟨cs, .number (if d == Byte.zero then .zero else .whole) [d]⟩ := by
      simp only [step, hblank, beginValue, hne Byte.openBrace rfl, hne Byte.openBracket rfl, hne Byte.quote rfl,
        hne Byte.minus rfl, hd, Bool.false_eq_true, if_false, if_true]
      split <;> rfl
    rw [run_cons, hstep, Option.bind_some]
    exact run_number_rest [d] hrun hcomplete
  | @negative text h =>
    obtain ⟨d, ds, rfl, hd, p, hrun, hcomplete⟩ := NumberPart.run_unsigned h
    have hfirst : NumberPart.minus.next? d = some (if d == Byte.zero then .zero else .whole) := by
      simp only [NumberPart.next?, hd, if_true]
      split <;> rfl
    have hminus : NumberPart.minus.run (d :: ds) = some p := by
      rw [NumberPart.run, List.foldlM_cons, hfirst]
      exact hrun
    exact run_number_rest [Byte.minus] hminus hcomplete

theorem run_string_value (h : StringText text) :
    run ⟨cs, .value⟩ (Byte.quote :: text ++ [Byte.quote]) = some (finish cs (.string text)) := by
  have hopen : step ⟨cs, .value⟩ Byte.quote = some ⟨cs, .string false .none []⟩ := rfl
  rw [List.cons_append, run_cons, hopen, Option.bind_some, run_append, run_string h, List.append_nil]
  show some (finish cs (.string text.reverse.reverse)) = _
  rw [List.reverse_reverse]

theorem run_openBracket (cs : List Container) (text : Bytes) :
    run ⟨cs, .value⟩ (Byte.openBracket :: text) = run ⟨.array [] :: cs, .firstItem⟩ text := rfl

theorem run_openBrace (cs : List Container) (text : Bytes) :
    run ⟨cs, .value⟩ (Byte.openBrace :: text) = run ⟨.object [] [] :: cs, .firstKey⟩ text := rfl

/-- An array with items is read as they are up to its end. -/
theorem run_array_value {vs : List Json} (h : Derives (.items vs) text) :
    run ⟨cs, .value⟩ (Byte.openBracket :: text ++ [Byte.closeBracket]) =
      run ⟨.array [] :: cs, .value⟩ (text ++ [Byte.closeBracket]) := by
  obtain ⟨before, b, rest, rfl, hbefore, hb, hclose⟩ := exists_first_of_items h
  rw [List.cons_append, run_openBracket, List.append_assoc, List.cons_append, run_firstItem hbefore hb hclose]

theorem run_object_value {ms : List (Bytes × Json)} (h : Derives (.members ms) text) :
    run ⟨cs, .value⟩ (Byte.openBrace :: text ++ [Byte.closeBrace]) =
      run ⟨.object [] [] :: cs, .key⟩ (text ++ [Byte.closeBrace]) := by
  obtain ⟨before, rest, rfl, hbefore⟩ := exists_first_of_members h
  rw [List.cons_append, run_openBrace, List.append_assoc, List.cons_append, run_firstKey hbefore]

/-- Up to the value of a member. -/
theorem run_member_key {members : List (Bytes × Json)} {last key before after : Bytes} (hb : Blanks before)
    (hk : StringText key) (ha : Blanks after) :
    run ⟨.object members last :: cs, .key⟩
      (before ++ (Byte.quote :: key ++ [Byte.quote]) ++ after ++ Byte.colon :: text) =
      run ⟨.object members key :: cs, .value⟩ text := by
  have hopen : step ⟨.object members last :: cs, .key⟩ Byte.quote =
      some ⟨.object members last :: cs, .string true .none []⟩ := rfl
  have hclose : step ⟨.object members last :: cs, .string true .none key.reverse⟩ Byte.quote =
      some ⟨.object members key :: cs, .colon⟩ := by
    show some (Reader.mk (.object members key.reverse.reverse :: cs) .colon) = _
    rw [List.reverse_reverse]
  have hcolon : step ⟨.object members key :: cs, .colon⟩ Byte.colon = some ⟨.object members key :: cs, .value⟩ := rfl
  rw [List.append_assoc, List.append_assoc, run_append, run_key_blanks hb, Option.bind_some, List.cons_append,
    List.cons_append, run_cons, hopen, Option.bind_some, List.append_assoc, run_append, run_string hk,
    Option.bind_some, List.append_nil, List.cons_append, List.nil_append, run_cons, hclose, Option.bind_some,
    run_append, run_colon_blanks ha, Option.bind_some, run_cons, hcolon, Option.bind_some]

end Reader

/-- What reading the text of a phrase comes to. -/
def Phrase.IsRead (text : Bytes) : Phrase → Prop
  | value v => ∀ cs, ∃ r, Reader.run ⟨cs, .value⟩ text = some r ∧ Reader.AfterValue cs v r
  | item v => ∀ cs, ∃ r, Reader.run ⟨cs, .value⟩ text = some r ∧ Reader.AfterValue cs v r
  | items vs => ∀ cs before, Reader.run ⟨.array before :: cs, .value⟩ (text ++ [Byte.closeBracket]) =
      some (Reader.finish cs (.array (before.reverse ++ vs)))
  | member key v => ∀ cs before last, ∃ r, Reader.run ⟨.object before last :: cs, .key⟩ text = some r ∧
      Reader.AfterValue (.object before key :: cs) v r
  | members ms => ∀ cs before last, Reader.run ⟨.object before last :: cs, .key⟩ (text ++ [Byte.closeBrace]) =
      some (Reader.finish cs (.object (before.reverse ++ ms)))

namespace Reader
variable {cs : List Container} {text : Bytes}

theorem run_value_of_finish {v : Json} (h : run ⟨cs, .value⟩ text = some (finish cs v)) :
    ∃ r, run ⟨cs, .value⟩ text = some r ∧ AfterValue cs v r := ⟨_, h, .finished v⟩

theorem isRead_of_derives {p : Phrase} (h : Derives p text) : p.IsRead text := by
  induction h with
  | null => exact fun cs => run_value_of_finish rfl
  | true => exact fun cs => run_value_of_finish rfl
  | false => exact fun cs => run_value_of_finish rfl
  | number h => exact fun cs => run_number_value h
  | string h => exact fun cs => run_value_of_finish (run_string_value h)
  | emptyArray h =>
    intro cs
    refine run_value_of_finish ?_
    rw [List.cons_append, run_openBracket, run_append, run_firstItem_blanks h]
    rfl
  | array h ih => exact fun cs => run_value_of_finish ((run_array_value h).trans (ih cs []))
  | emptyObject h =>
    intro cs
    refine run_value_of_finish ?_
    rw [List.cons_append, run_openBrace, run_append, run_firstKey_blanks h]
    rfl
  | object h ih => exact fun cs => run_value_of_finish ((run_object_value h).trans (ih cs [] []))
  | item hb h ha ih =>
    intro cs
    obtain ⟨r, hr, hafter⟩ := ih cs
    obtain ⟨r', hr', hafter'⟩ := hafter.run_blanks ha
    refine ⟨r', ?_, hafter'⟩
    rw [List.append_assoc, run_append, run_value_blanks hb, Option.bind_some, run_append, hr, Option.bind_some, hr']
  | lastItem h ih =>
    intro cs before
    obtain ⟨r, hr, hafter⟩ := ih (.array before :: cs)
    rw [run_append, hr, Option.bind_some, hafter.run_closeBracket]
  | @moreItems v vs text rest h hs ih ihs =>
    intro cs before
    obtain ⟨r, hr, hafter⟩ := ih (.array before :: cs)
    have hitems := ihs cs (v :: before)
    rw [List.reverse_cons, List.append_assoc] at hitems
    rw [List.append_assoc, List.cons_append, run_append, hr, Option.bind_some, hafter.run_comma_item, hitems]
    rfl
  | @member key v before after text hb hk ha h ih =>
    intro cs earlier last
    obtain ⟨r, hr, hafter⟩ := ih (.object earlier key :: cs)
    exact ⟨r, (run_member_key hb hk ha).trans hr, hafter⟩
  | lastMember h ih =>
    intro cs before last
    obtain ⟨r, hr, hafter⟩ := ih cs before last
    rw [run_append, hr, Option.bind_some, hafter.run_closeBrace]
  | @moreMembers key v ms text rest h hs ih ihs =>
    intro cs before last
    obtain ⟨r, hr, hafter⟩ := ih cs before last
    have hmembers := ihs cs ((key, v) :: before) key
    rw [List.reverse_cons, List.append_assoc] at hmembers
    rw [List.append_assoc, List.cons_append, run_append, hr, Option.bind_some, hafter.run_comma_member, hmembers]
    rfl

end Reader

/-- The reader takes exactly the texts of the grammar. -/
theorem parse?_eq_some_iff {bytes : Bytes} {v : Json} : parse? bytes = some v ↔ Derives (.item v) bytes := by
  refine ⟨derives_of_parse?, fun h => ?_⟩
  obtain ⟨r, hr, hafter⟩ := Reader.isRead_of_derives h []
  rw [parse?, Reader.start, hr, Option.bind_some, hafter.value?]

end ClusterMetrics.Json
