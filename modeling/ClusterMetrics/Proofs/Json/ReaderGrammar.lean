import ClusterMetrics.Json.Reader
import ClusterMetrics.Proofs.Json.Grammar

/-! # The reader and the grammar

Read from the end of the input backwards, every state of the reader asks for a part of the grammar: the rest
of the phrase that it is within, and of those around it. An input that is read to its end is a text of the
value it gives.

Main statements: `Reader.Completes.step`, `derives_of_parse?`, `containerText_of_parse?`. -/

namespace ClusterMetrics.Json

theorem Blanks.nil : Blanks [] := fun _ h => absurd h List.not_mem_nil

theorem Blanks.cons {b : UInt8} {text : Bytes} (hb : Byte.isBlank b = true) (h : Blanks text) :
    Blanks (b :: text) := List.forall_mem_cons.2 ⟨hb, h⟩

theorem Digits.nil : Digits [] := fun _ h => absurd h List.not_mem_nil

theorem Digits.cons {d : UInt8} {ds : Bytes} (hd : Byte.isDigit d = true) (h : Digits ds) : Digits (d :: ds) :=
  List.forall_mem_cons.2 ⟨hd, h⟩

/-! ### Numbers -/

namespace NumberPart
variable {part next : NumberPart} {b : UInt8} {text : Bytes}

/-- What a number may go on with and end. -/
def Rest : NumberPart → Bytes → Prop
  | minus, text => UnsignedText text
  | zero, text => ∃ f e, FractionText f ∧ ExponentText e ∧ text = f ++ e
  | whole, text => ∃ ds f e, Digits ds ∧ FractionText f ∧ ExponentText e ∧ text = ds ++ f ++ e
  | point, text => ∃ ds e, ds ≠ [] ∧ Digits ds ∧ ExponentText e ∧ text = ds ++ e
  | fraction, text => ∃ ds e, Digits ds ∧ ExponentText e ∧ text = ds ++ e
  | exponent, text => ∀ e, Byte.isExponent e = true → ExponentText (e :: text)
  | sign, text => text ≠ [] ∧ Digits text
  | power, text => Digits text

theorem rest_nil (h : part.isComplete = true) : part.Rest [] := by
  cases part with
  | zero => exact ⟨[], [], .absent, .absent, rfl⟩
  | whole => exact ⟨[], [], [], .nil, .absent, .absent, rfl⟩
  | fraction => exact ⟨[], [], .nil, .absent, rfl⟩
  | power => exact .nil
  | minus | point | exponent | sign => cases h

theorem unsignedText_of_zero (h : zero.Rest text) : UnsignedText (Byte.zero :: text) := by
  obtain ⟨f, e, hf, he, rfl⟩ := h
  exact .mk .zero hf he

theorem unsignedText_of_whole (hd : Byte.isDigit b = true) (hzero : b ≠ Byte.zero) (h : whole.Rest text) :
    UnsignedText (b :: text) := by
  obtain ⟨ds, f, e, hds, hf, he, rfl⟩ := h
  exact .mk (.digits hd hzero hds) hf he

theorem rest_zero_of_point (h : point.Rest text) : zero.Rest (Byte.point :: text) := by
  obtain ⟨ds, e, hne, hds, he, rfl⟩ := h
  exact ⟨Byte.point :: ds, e, .digits hne hds, he, rfl⟩

theorem rest_zero_of_exponent (hb : Byte.isExponent b = true) (h : exponent.Rest text) : zero.Rest (b :: text) :=
  ⟨[], b :: text, .absent, h b hb, rfl⟩

theorem rest_whole_of_zero (h : zero.Rest text) : whole.Rest text := by
  obtain ⟨f, e, hf, he, rfl⟩ := h
  exact ⟨[], f, e, .nil, hf, he, rfl⟩

/-- What may come after a byte of a number may come after it from there. -/
theorem rest_step (hn : part.next? b = some next) (h : next.Rest text) : part.Rest (b :: text) := by
  cases part with
  | minus =>
    rw [next?] at hn
    split at hn
    next hb =>
      cases hn
      rw [eq_of_beq hb]
      exact unsignedText_of_zero h
    next hb =>
      obtain ⟨hd, hn⟩ := Option.ite_none_right_eq_some.1 hn
      cases hn
      exact unsignedText_of_whole hd (fun he => hb (beq_iff_eq.2 he)) h
  | zero =>
    rw [next?] at hn
    split at hn
    next hb =>
      cases hn
      rw [eq_of_beq hb]
      exact rest_zero_of_point h
    next =>
      obtain ⟨he, hn⟩ := Option.ite_none_right_eq_some.1 hn
      cases hn
      exact rest_zero_of_exponent he h
  | whole =>
    rw [next?] at hn
    split at hn
    next hd =>
      cases hn
      obtain ⟨ds, f, e, hds, hf, he, rfl⟩ := h
      exact ⟨b :: ds, f, e, .cons hd hds, hf, he, rfl⟩
    next =>
      split at hn
      next hb =>
        cases hn
        rw [eq_of_beq hb]
        exact rest_whole_of_zero (rest_zero_of_point h)
      next =>
        obtain ⟨he, hn⟩ := Option.ite_none_right_eq_some.1 hn
        cases hn
        exact rest_whole_of_zero (rest_zero_of_exponent he h)
  | point =>
    obtain ⟨hd, hn⟩ := Option.ite_none_right_eq_some.1 hn
    cases hn
    obtain ⟨ds, e, hds, he, rfl⟩ := h
    exact ⟨b :: ds, e, List.cons_ne_nil _ _, .cons hd hds, he, rfl⟩
  | fraction =>
    rw [next?] at hn
    split at hn
    next hd =>
      cases hn
      obtain ⟨ds, e, hds, he, rfl⟩ := h
      exact ⟨b :: ds, e, .cons hd hds, he, rfl⟩
    next =>
      obtain ⟨he, hn⟩ := Option.ite_none_right_eq_some.1 hn
      cases hn
      exact ⟨[], b :: text, .nil, h b he, rfl⟩
  | exponent =>
    rw [next?] at hn
    split at hn
    next hs =>
      cases hn
      rw [Bool.or_eq_true, beq_iff_eq, beq_iff_eq] at hs
      exact fun e he => .signed he hs h.1 h.2
    next =>
      obtain ⟨hd, hn⟩ := Option.ite_none_right_eq_some.1 hn
      cases hn
      exact fun e he => .unsigned he (List.cons_ne_nil _ _) (.cons hd h)
  | sign =>
    obtain ⟨hd, hn⟩ := Option.ite_none_right_eq_some.1 hn
    cases hn
    exact ⟨List.cons_ne_nil _ _, .cons hd h⟩
  | power =>
    obtain ⟨hd, hn⟩ := Option.ite_none_right_eq_some.1 hn
    cases hn
    exact .cons hd h

end NumberPart

/-! ### Strings -/

namespace Escape
variable {escape next : Escape} {b : UInt8} {text : Bytes}

/-- What a string may go on with up to its closing quote. -/
def Rest : Escape → Bytes → Prop
  | none, text => StringText text
  | started, text => StringText (Byte.backslash :: text)
  | unicode missing, text => ∃ digits more, digits.length = max missing 1 ∧
      (∀ d ∈ digits, Byte.isHexDigit d = true) ∧ StringText more ∧ text = digits ++ more

theorem rest_step (hq : ¬ (escape = none ∧ b = Byte.quote)) (hn : escape.next? b = some next)
    (h : next.Rest text) : escape.Rest (b :: text) := by
  cases escape with
  | none =>
    rw [next?] at hn
    split at hn
    next hb =>
      cases hn
      rw [eq_of_beq hb]
      exact h
    next hb =>
      obtain ⟨hc, hn⟩ := Option.ite_none_left_eq_some.1 hn
      cases hn
      exact .plain (fun he => hq ⟨rfl, he⟩) (fun he => hb (beq_iff_eq.2 he)) hc h
  | started =>
    rw [next?] at hn
    split at hn
    next hb =>
      cases hn
      obtain ⟨digits, more, hlen, hd, hmore, rfl⟩ := h
      rw [eq_of_beq hb]
      exact .unicode hlen hd hmore
    next =>
      obtain ⟨hc, hn⟩ := Option.ite_none_right_eq_some.1 hn
      cases hn
      exact .named (List.contains_iff_mem.1 hc) h
  | unicode missing =>
    obtain ⟨hb, hn⟩ := Option.ite_none_right_eq_some.1 hn
    cases hn
    split at h
    next hm =>
      refine ⟨[b], text, ?_, List.forall_mem_cons.2 ⟨hb, fun _ h => absurd h List.not_mem_nil⟩, h, rfl⟩
      rw [List.length_singleton]; omega
    next hm =>
      obtain ⟨digits, more, hlen, hd, hmore, rfl⟩ := h
      refine ⟨b :: digits, more, ?_, List.forall_mem_cons.2 ⟨hb, hd⟩, hmore, rfl⟩
      rw [List.length_cons]; omega

end Escape

/-! ### Containers -/

/-- What may stand between an item and the end of its array. -/
inductive ItemsRest : List Json → Bytes → Prop where
  | last {blanks : Bytes} (h : Blanks blanks) : ItemsRest [] blanks
  | more {vs : List Json} {blanks text : Bytes} (hb : Blanks blanks) (h : Derives (.items vs) text) :
      ItemsRest vs (blanks ++ Byte.comma :: text)

/-- What may stand between a member and the end of its object. -/
inductive MembersRest : List (Bytes × Json) → Bytes → Prop where
  | last {blanks : Bytes} (h : Blanks blanks) : MembersRest [] blanks
  | more {ms : List (Bytes × Json)} {blanks text : Bytes} (hb : Blanks blanks)
      (h : Derives (.members ms) text) : MembersRest ms (blanks ++ Byte.comma :: text)

theorem ItemsRest.cons {vs : List Json} {text : Bytes} {b : UInt8} (hb : Byte.isBlank b = true)
    (h : ItemsRest vs text) : ItemsRest vs (b :: text) := by
  cases h with
  | last hs => exact .last (.cons hb hs)
  | more hs h => exact .more (.cons hb hs) h

theorem MembersRest.cons {ms : List (Bytes × Json)} {text : Bytes} {b : UInt8} (hb : Byte.isBlank b = true)
    (h : MembersRest ms text) : MembersRest ms (b :: text) := by
  cases h with
  | last hs => exact .last (.cons hb hs)
  | more hs h => exact .more (.cons hb hs) h

theorem ItemsRest.items {v : Json} {vs : List Json} {before text rest : Bytes} (hb : Blanks before)
    (hv : Derives (.value v) text) (h : ItemsRest vs rest) :
    Derives (.items (v :: vs)) (before ++ text ++ rest) := by
  cases h with
  | last hs => exact .lastItem (.item hb hv hs)
  | more hs h =>
    rw [← List.append_assoc]
    exact .moreItems (.item hb hv hs) h

theorem MembersRest.members {key : Bytes} {v : Json} {ms : List (Bytes × Json)}
    {before after gap text rest : Bytes} (hb : Blanks before) (hk : StringText key) (ha : Blanks after)
    (hg : Blanks gap) (hv : Derives (.value v) text) (h : MembersRest ms rest) :
    Derives (.members ((key, v) :: ms))
      (before ++ (Byte.quote :: key ++ [Byte.quote]) ++ after ++ Byte.colon :: (gap ++ text ++ rest)) := by
  cases h with
  | last hs => exact .lastMember (.member hb hk ha (.item hg hv hs))
  | more hs h =>
    have hall := Derives.moreMembers (.member hb hk ha (.item hg hv hs)) h
    simpa only [List.append_assoc, List.cons_append] using hall

/-! ### The reader -/

/-- No token has been read in part. -/
def Mode.isBetween : Mode → Bool
  | word .. | number .. | string .. => false
  | value | firstItem | key | firstKey | colon | separator | done _ => true

namespace Reader

/-- The bytes that a value may begin with, each with the state that it leads to. -/
inductive Begins (cs : List Container) : UInt8 → Reader → Prop where
  | object : Begins cs Byte.openBrace ⟨.object [] [] :: cs, .firstKey⟩
  | array : Begins cs Byte.openBracket ⟨.array [] :: cs, .firstItem⟩
  | string : Begins cs Byte.quote ⟨cs, .string false .none []⟩
  | negative : Begins cs Byte.minus ⟨cs, .number .minus [Byte.minus]⟩
  | zero : Begins cs Byte.zero ⟨cs, .number .zero [Byte.zero]⟩
  | digits {d : UInt8} (hd : Byte.isDigit d = true) (hzero : d ≠ Byte.zero) :
      Begins cs d ⟨cs, .number .whole [d]⟩
  | true : Begins cs 0x74 ⟨cs, .word [0x72, 0x75, 0x65] (.bool true)⟩
  | false : Begins cs 0x66 ⟨cs, .word [0x61, 0x6C, 0x73, 0x65] (.bool false)⟩
  | null : Begins cs 0x6E ⟨cs, .word [0x75, 0x6C, 0x6C] .null⟩

theorem begins_of_beginValue {cs : List Container} {b : UInt8} {next : Reader} (hn : beginValue cs b = some next) :
    Begins cs b next := by
  simp only [beginValue, beq_iff_eq] at hn
  split at hn
  next hb => subst hb; cases hn; exact .object
  split at hn
  next hb => subst hb; cases hn; exact .array
  split at hn
  next hb => subst hb; cases hn; exact .string
  split at hn
  next hb => subst hb; cases hn; exact .negative
  split at hn
  next hb => subst hb; cases hn; exact .zero
  next hzero =>
  split at hn
  next hd => cases hn; exact .digits hd hzero
  split at hn
  next hb => subst hb; cases hn; exact .true
  split at hn
  next hb => subst hb; cases hn; exact .false
  obtain ⟨rfl, hn⟩ := Option.ite_none_right_eq_some.1 hn
  cases hn
  exact .null

/-- What the rest of an input is like that the reader gets from this state to the value. -/
inductive Completes : Reader → Json → Bytes → Prop where
  | done {cs : List Container} {v : Json} {blanks : Bytes} (h : Blanks blanks) : Completes ⟨cs, .done v⟩ v blanks
  | items {cs : List Container} {items vs : List Json} {w : Json} {text rest : Bytes} (h : ItemsRest vs text)
      (hr : Completes (finish cs (.array (items.reverse ++ vs))) w rest) :
      Completes ⟨.array items :: cs, .separator⟩ w (text ++ Byte.closeBracket :: rest)
  | members {cs : List Container} {members ms : List (Bytes × Json)} {key : Bytes} {w : Json}
      {text rest : Bytes} (h : MembersRest ms text)
      (hr : Completes (finish cs (.object (members.reverse ++ ms))) w rest) :
      Completes ⟨.object members key :: cs, .separator⟩ w (text ++ Byte.closeBrace :: rest)
  | value {cs : List Container} {v w : Json} {before text rest : Bytes} (hb : Blanks before)
      (h : Derives (.value v) text) (hr : Completes (finish cs v) w rest) :
      Completes ⟨cs, .value⟩ w (before ++ text ++ rest)
  | firstItem {cs : List Container} {w : Json} {rest : Bytes} (h : Completes ⟨cs, .value⟩ w rest) :
      Completes ⟨cs, .firstItem⟩ w rest
  | noItem {cs : List Container} {items : List Json} {w : Json} {blanks rest : Bytes} (hb : Blanks blanks)
      (hr : Completes (finish cs (.array items.reverse)) w rest) :
      Completes ⟨.array items :: cs, .firstItem⟩ w (blanks ++ Byte.closeBracket :: rest)
  | key {cs : List Container} {members : List (Bytes × Json)} {earlier key : Bytes} {w : Json}
      {before after rest : Bytes} (hb : Blanks before) (hk : StringText key) (ha : Blanks after)
      (hr : Completes ⟨.object members key :: cs, .value⟩ w rest) :
      Completes ⟨.object members earlier :: cs, .key⟩ w
        (before ++ (Byte.quote :: key ++ [Byte.quote]) ++ after ++ Byte.colon :: rest)
  | firstKey {cs : List Container} {w : Json} {rest : Bytes} (h : Completes ⟨cs, .key⟩ w rest) :
      Completes ⟨cs, .firstKey⟩ w rest
  | noKey {cs : List Container} {members : List (Bytes × Json)} {key : Bytes} {w : Json} {blanks rest : Bytes}
      (hb : Blanks blanks) (hr : Completes (finish cs (.object members.reverse)) w rest) :
      Completes ⟨.object members key :: cs, .firstKey⟩ w (blanks ++ Byte.closeBrace :: rest)
  | colon {cs : List Container} {w : Json} {blanks rest : Bytes} (hb : Blanks blanks)
      (hr : Completes ⟨cs, .value⟩ w rest) : Completes ⟨cs, .colon⟩ w (blanks ++ Byte.colon :: rest)
  | word {cs : List Container} {meaning w : Json} {text rest : Bytes}
      (hr : Completes (finish cs meaning) w rest) : Completes ⟨cs, .word text meaning⟩ w (text ++ rest)
  | number {cs : List Container} {part : NumberPart} {w : Json} {text more rest : Bytes}
      (h : part.Rest more) (hr : Completes (finish cs (.number (text.reverse ++ more))) w rest) :
      Completes ⟨cs, .number part text⟩ w (more ++ rest)
  | string {cs : List Container} {escape : Escape} {w : Json} {text more rest : Bytes} (h : escape.Rest more)
      (hr : Completes (finish cs (.string (text.reverse ++ more))) w rest) :
      Completes ⟨cs, .string false escape text⟩ w (more ++ Byte.quote :: rest)
  | keyString {cs : List Container} {escape : Escape} {members : List (Bytes × Json)} {earlier : Bytes}
      {w : Json} {text more rest : Bytes} (h : escape.Rest more)
      (hr : Completes ⟨.object members (text.reverse ++ more) :: cs, .colon⟩ w rest) :
      Completes ⟨.object members earlier :: cs, .string true escape text⟩ w (more ++ Byte.quote :: rest)

namespace Completes
variable {r next : Reader} {cs : List Container} {w : Json} {b : UInt8} {rest : Bytes}

/-! #### Blanks -/

theorem value_cons (hb : Byte.isBlank b = true) (h : Completes ⟨cs, .value⟩ w rest) :
    Completes ⟨cs, .value⟩ w (b :: rest) := by
  cases h with
  | value hs hv hr => exact .value (.cons hb hs) hv hr

theorem key_cons (hb : Byte.isBlank b = true) (h : Completes ⟨cs, .key⟩ w rest) :
    Completes ⟨cs, .key⟩ w (b :: rest) := by
  cases h with
  | key hs hk ha hr => exact .key (.cons hb hs) hk ha hr

/-- Blanks may come before anything but the rest of a token. -/
theorem cons (hb : Byte.isBlank b = true) (h : Completes r w rest) (hr : r.mode.isBetween = true) :
    Completes r w (b :: rest) := by
  cases h with
  | done hs => exact .done (.cons hb hs)
  | items h hr => exact .items (.cons hb h) hr
  | members h hr => exact .members (.cons hb h) hr
  | value hs hv hr => exact .value (.cons hb hs) hv hr
  | firstItem h => exact .firstItem (value_cons hb h)
  | noItem hs hr => exact .noItem (.cons hb hs) hr
  | key hs hk ha hr => exact .key (.cons hb hs) hk ha hr
  | firstKey h => exact .firstKey (key_cons hb h)
  | noKey hs hr => exact .noKey (.cons hb hs) hr
  | colon hs hr => exact .colon (.cons hb hs) hr
  | word | number | string | keyString => cases hr

/-! #### Values -/

/-- The value of a text that begins with the byte. -/
theorem value_of_derives {v : Json} {text : Bytes} (hv : Derives (.value v) text)
    (hr : Completes (finish cs v) w rest) : Completes ⟨cs, .value⟩ w (text ++ rest) :=
  .value .nil hv hr

theorem value_of_bracketed {v : Json} {o c : UInt8} {text : Bytes} (hv : Derives (.value v) (o :: text ++ [c]))
    (hr : Completes (finish cs v) w rest) : Completes ⟨cs, .value⟩ w (o :: (text ++ c :: rest)) := by
  have h := value_of_derives hv hr
  rwa [List.append_assoc] at h

theorem members_of_key {members : List (Bytes × Json)} {earlier : Bytes}
    (h : Completes ⟨.object members earlier :: cs, .key⟩ w rest) :
    ∃ ms text more, rest = text ++ Byte.closeBrace :: more ∧ Derives (.members ms) text ∧
      Completes (finish cs (.object (members.reverse ++ ms))) w more := by
  cases h with
  | @key _ _ _ k _ before after _ hb hk ha hr =>
    cases hr with
    | @value _ v _ gap text more hg hv hr =>
      replace hr : Completes ⟨.object ((k, v) :: members) k :: cs, .separator⟩ w more := hr
      cases hr with
      | @members _ _ ms _ _ text' rest hms hr =>
        refine ⟨(k, v) :: ms, _, rest, ?_, hms.members hb hk ha hg hv, ?_⟩
        · simp only [List.append_assoc, List.cons_append]
        · rwa [List.reverse_cons, List.append_assoc] at hr

theorem items_of_value {items : List Json} (h : Completes ⟨.array items :: cs, .value⟩ w rest) :
    ∃ vs text more, rest = text ++ Byte.closeBracket :: more ∧ Derives (.items vs) text ∧
      Completes (finish cs (.array (items.reverse ++ vs))) w more := by
  cases h with
  | @value _ v _ gap text more hg hv hr =>
    replace hr : Completes ⟨.array (v :: items) :: cs, .separator⟩ w more := hr
    cases hr with
    | @items _ _ vs _ text' rest hvs hr =>
      refine ⟨v :: vs, _, rest, ?_, hvs.items hg hv, ?_⟩
      · simp only [List.append_assoc]
      · rwa [List.reverse_cons, List.append_assoc] at hr

theorem beginValue (hn : Reader.beginValue cs b = some next) (h : Completes next w rest) :
    Completes ⟨cs, .value⟩ w (b :: rest) := by
  cases begins_of_beginValue hn with
  | object =>
    cases h with
    | noKey hs hr => exact value_of_bracketed (.emptyObject hs) hr
    | firstKey h =>
      obtain ⟨ms, text, more, rfl, hms, hr⟩ := members_of_key h
      exact value_of_bracketed (.object hms) hr
  | array =>
    cases h with
    | noItem hs hr => exact value_of_bracketed (.emptyArray hs) hr
    | firstItem h =>
      obtain ⟨vs, text, more, rfl, hvs, hr⟩ := items_of_value h
      exact value_of_bracketed (.array hvs) hr
  | string =>
    cases h with
    | string ht hr => exact value_of_bracketed (.string ht) hr
  | negative =>
    cases h with
    | number ht hr => exact value_of_derives (.number (.negative ht)) hr
  | zero =>
    cases h with
    | number ht hr => exact value_of_derives (.number (.positive (NumberPart.unsignedText_of_zero ht))) hr
  | digits hd hzero =>
    cases h with
    | number ht hr =>
      exact value_of_derives (.number (.positive (NumberPart.unsignedText_of_whole hd hzero ht))) hr
  | true =>
    cases h with
    | word hr => exact value_of_derives .true hr
  | false =>
    cases h with
    | word hr => exact value_of_derives .false hr
  | null =>
    cases h with
    | word hr => exact value_of_derives .null hr

/-! #### Steps -/

theorem closeArray (hn : Reader.closeArray cs = some next) (h : Completes next w rest) :
    Completes ⟨cs, .separator⟩ w (Byte.closeBracket :: rest) ∧
      Completes ⟨cs, .firstItem⟩ w (Byte.closeBracket :: rest) := by
  rcases cs with _ | ⟨items | ⟨members, key⟩, cs⟩
  · cases hn
  · cases hn
    refine ⟨.items (.last .nil) ?_, .noItem .nil h⟩
    rwa [List.append_nil]
  · cases hn

theorem closeObject (hn : Reader.closeObject cs = some next) (h : Completes next w rest) :
    Completes ⟨cs, .separator⟩ w (Byte.closeBrace :: rest) ∧
      Completes ⟨cs, .firstKey⟩ w (Byte.closeBrace :: rest) := by
  rcases cs with _ | ⟨items | ⟨members, key⟩, cs⟩
  · cases hn
  · cases hn
  · cases hn
    refine ⟨.members (.last .nil) ?_, .noKey .nil h⟩
    rwa [List.append_nil]

theorem afterComma (hn : Reader.afterComma cs = some next) (h : Completes next w rest) :
    Completes ⟨cs, .separator⟩ w (Byte.comma :: rest) := by
  rcases cs with _ | ⟨items | ⟨members, key⟩, cs⟩
  · cases hn
  · cases hn
    obtain ⟨vs, text, more, rfl, hvs, hr⟩ := items_of_value h
    exact .items (.more .nil hvs) hr
  · cases hn
    obtain ⟨ms, text, more, rfl, hms, hr⟩ := members_of_key h
    exact .members (.more .nil hms) hr

theorem stepAfterValue (hm : r.mode = .separator ∨ ∃ v, r.mode = .done v)
    (hn : Reader.stepAfterValue r b = some next) (h : Completes next w rest) : Completes r w (b :: rest) := by
  obtain ⟨cs, mode⟩ := r
  rw [Reader.stepAfterValue] at hn
  split at hn
  next hb =>
    cases hn
    rcases hm with rfl | ⟨v, rfl⟩ <;> exact h.cons hb rfl
  next =>
    rcases hm with rfl | ⟨v, rfl⟩
    · dsimp only at hn
      split at hn
      next hb => rw [eq_of_beq hb]; exact afterComma hn h
      next =>
      split at hn
      next hb => rw [eq_of_beq hb]; exact (closeArray hn h).1
      next =>
        obtain ⟨hb, hn⟩ := Option.ite_none_right_eq_some.1 hn
        rw [eq_of_beq hb]
        exact (closeObject hn h).1
    · cases hn

theorem mode_finish (cs : List Container) (v : Json) :
    (finish cs v).mode = .separator ∨ ∃ u, (finish cs v).mode = .done u := by
  rcases cs with _ | ⟨items | ⟨members, key⟩, cs⟩
  · exact .inr ⟨v, rfl⟩
  · exact .inl rfl
  · exact .inl rfl

theorem quote_key (h : Completes ⟨cs, .string true .none []⟩ w rest) :
    Completes ⟨cs, .key⟩ w (Byte.quote :: rest) := by
  cases h with
  | keyString ht hr =>
    cases hr with
    | colon hb hr => simpa using key .nil ht hb hr

theorem word_step {text : Bytes} {meaning : Json} (hn : Reader.step ⟨cs, .word text meaning⟩ b = some next)
    (h : Completes next w rest) : Completes ⟨cs, .word text meaning⟩ w (b :: rest) := by
  rcases text with _ | ⟨c, _ | ⟨d, text⟩⟩
  · cases hn
  · obtain ⟨hb, hn⟩ := Option.ite_none_right_eq_some.1 hn
    cases hn
    rw [eq_of_beq hb]
    exact word h
  · obtain ⟨hb, hn⟩ := Option.ite_none_right_eq_some.1 hn
    cases hn
    rw [eq_of_beq hb]
    cases h with
    | word hr => exact word hr

theorem number_step {part : NumberPart} {text : Bytes}
    (hn : Reader.step ⟨cs, .number part text⟩ b = some next) (h : Completes next w rest) :
    Completes ⟨cs, .number part text⟩ w (b :: rest) := by
  dsimp only [Reader.step] at hn
  split at hn
  next part' hp =>
    cases hn
    cases h with
    | @number _ _ _ _ more _ hm hr =>
      rw [List.reverse_cons, List.append_assoc] at hr
      exact number (NumberPart.rest_step hp hm) hr
  next =>
    -- The number ends before the byte, which is that of what comes after a value.
    obtain ⟨hc, hn⟩ := Option.ite_none_right_eq_some.1 hn
    have hr := stepAfterValue (mode_finish cs _) hn h
    rw [← List.append_nil text.reverse] at hr
    exact number (NumberPart.rest_nil hc) hr

theorem string_step {isKey : Bool} {escape : Escape} {text : Bytes}
    (hn : Reader.step ⟨cs, .string isKey escape text⟩ b = some next) (h : Completes next w rest) :
    Completes ⟨cs, .string isKey escape text⟩ w (b :: rest) := by
  dsimp only [Reader.step] at hn
  split at hn
  next hq =>
    obtain ⟨rfl, rfl⟩ := hq
    have hend : Escape.none.Rest [] := StringText.nil
    cases isKey with
    | false =>
      cases hn
      rw [← List.append_nil text.reverse] at h
      exact string hend h
    | true =>
      rcases cs with _ | ⟨items | ⟨members, key⟩, cs⟩
      · cases hn
      · cases hn
      · cases hn
        rw [← List.append_nil text.reverse] at h
        exact keyString hend h
  next hq =>
    obtain ⟨e, he, rfl⟩ := Option.map_eq_some_iff.1 hn
    cases h with
    | string hm hr =>
      rw [List.reverse_cons, List.append_assoc] at hr
      exact string (Escape.rest_step hq he hm) hr
    | keyString hm hr =>
      rw [List.reverse_cons, List.append_assoc] at hr
      exact keyString (Escape.rest_step hq he hm) hr

/-- A byte that the reader takes goes before what it asks for next. -/
theorem step (hn : r.step b = some next) (h : Completes next w rest) : Completes r w (b :: rest) := by
  obtain ⟨cs, mode⟩ := r
  cases mode with
  | value =>
    dsimp only [Reader.step] at hn
    split at hn
    next hb => cases hn; exact value_cons hb h
    next => exact beginValue hn h
  | firstItem =>
    dsimp only [Reader.step] at hn
    split at hn
    next hb => cases hn; exact h.cons hb rfl
    next =>
    split at hn
    next hb => rw [eq_of_beq hb]; exact (closeArray hn h).2
    next => exact firstItem (beginValue hn h)
  | key =>
    dsimp only [Reader.step] at hn
    split at hn
    next hb => cases hn; exact key_cons hb h
    next =>
      obtain ⟨hb, hn⟩ := Option.ite_none_right_eq_some.1 hn
      cases hn
      rw [eq_of_beq hb]
      exact quote_key h
  | firstKey =>
    dsimp only [Reader.step] at hn
    split at hn
    next hb => cases hn; exact h.cons hb rfl
    next =>
    split at hn
    next hb => cases hn; rw [eq_of_beq hb]; exact firstKey (quote_key h)
    next =>
      obtain ⟨hb, hn⟩ := Option.ite_none_right_eq_some.1 hn
      rw [eq_of_beq hb]
      exact (closeObject hn h).2
  | colon =>
    dsimp only [Reader.step] at hn
    split at hn
    next hb => cases hn; exact h.cons hb rfl
    next =>
      obtain ⟨hb, hn⟩ := Option.ite_none_right_eq_some.1 hn
      cases hn
      rw [eq_of_beq hb]
      exact colon .nil h
  | separator => exact stepAfterValue (.inl rfl) hn h
  | done v => exact stepAfterValue (.inr ⟨v, rfl⟩) hn h
  | word text meaning => exact word_step hn h
  | number part text => exact number_step hn h
  | string isKey escape text => exact string_step hn h

theorem of_value? (h : r.value? = some w) : Completes r w [] := by
  obtain ⟨cs, mode⟩ := r
  cases mode with
  | done v => cases h; exact done .nil
  | number part text =>
    obtain ⟨hc, h⟩ := Option.ite_none_right_eq_some.1 h
    cases h
    obtain ⟨hp, hcs⟩ := Bool.and_eq_true_iff.1 hc
    obtain rfl : cs = [] := List.isEmpty_iff.1 hcs
    have hr : Completes (finish [] (.number (text.reverse ++ []))) (.number text.reverse) [] := by
      rw [List.append_nil]
      exact done .nil
    exact number (NumberPart.rest_nil hp) hr
  | _ => cases h

theorem of_run {bytes : Bytes} (hn : r.run bytes = some next) (h : next.value? = some w) :
    Completes r w bytes := by
  induction bytes generalizing r with
  | nil =>
    cases hn
    exact of_value? h
  | cons b bytes ih =>
    rw [run, List.foldlM_cons] at hn
    obtain ⟨r', hb, hn⟩ := Option.bind_eq_some_iff.1 hn
    exact step hb (ih hn)

theorem derives {v : Json} {bytes : Bytes} (h : Completes start v bytes) : Derives (.item v) bytes := by
  cases h with
  | value hb hd hr =>
    cases hr with
    | done ha => exact .item hb hd ha

end Completes

end Reader

/-- What is read is a value of the grammar, with blanks around it. -/
theorem derives_of_parse? {bytes : Bytes} {v : Json} (h : parse? bytes = some v) : Derives (.item v) bytes := by
  obtain ⟨r, hr, hv⟩ := Option.bind_eq_some_iff.1 h
  exact (Reader.Completes.of_run hr hv).derives

/-! ### Objects and arrays -/

theorem NumberText.head_ne {text : Bytes} (h : NumberText text) :
    text.head? ≠ some Byte.openBrace ∧ text.head? ≠ some Byte.openBracket := by
  have hdigit : ∀ d ds, Byte.isDigit d = true → (d :: ds).head? ≠ some Byte.openBrace ∧
      (d :: ds).head? ≠ some Byte.openBracket := by
    intro d ds hd
    constructor <;> rintro ⟨⟩ <;> cases hd
  cases h with
  | positive h =>
    cases h with
    | mk hw _ _ =>
      cases hw with
      | zero => exact hdigit _ _ rfl
      | digits hd _ _ => exact hdigit _ _ hd
  | negative h => constructor <;> rintro ⟨⟩

theorem Derives.containerText {v : Json} {text : Bytes} (h : Derives (.value v) text)
    (hhead : text.head? = some Byte.openBrace ∨ text.head? = some Byte.openBracket) : ContainerText text := by
  have hne : ∀ b rest, text = b :: rest → b = Byte.openBrace ∨ b = Byte.openBracket := by
    rintro b rest rfl
    simpa using hhead
  cases h with
  | null | true | false => exact absurd (hne _ _ rfl) (by decide)
  | string => exact absurd (hne _ _ rfl) (by decide)
  | number h =>
    rcases hhead with hh | hh
    · exact absurd hh h.head_ne.1
    · exact absurd hh h.head_ne.2
  | emptyArray hb => exact .array (.emptyArray hb)
  | array h => exact .array (.array h)
  | emptyObject hb => exact .object (.emptyObject hb)
  | object h => exact .object (.object h)

theorem containerText_of_parse? {text : Bytes} {v : Json} (h : parse? text = some v)
    (hhead : text.head? = some Byte.openBrace ∨ text.head? = some Byte.openBracket)
    (hlast : text.getLast?.any Byte.isBlank = false) : ContainerText text := by
  cases derives_of_parse? h with
  | @item _ before text after hb hd ha =>
    have hbefore : before = [] := by
      rcases before with _ | ⟨b, before⟩
      · rfl
      · obtain ⟨hblank, -⟩ := List.forall_mem_cons.1 hb
        simp only [List.append_assoc, List.cons_append, List.head?_cons, Option.some.injEq] at hhead
        rcases hhead with rfl | rfl <;> exact absurd hblank (by decide)
    have hafter : after = [] := by
      by_cases hne : after = []
      · exact hne
      · rw [List.getLast?_append, List.getLast?_eq_some_getLast hne, Option.some_or, Option.any_some,
          ha _ (List.getLast_mem hne)] at hlast
        cases hlast
    subst hbefore hafter
    rw [List.nil_append, List.append_nil] at hhead ⊢
    exact hd.containerText hhead

end ClusterMetrics.Json
