import ClusterMetrics.Category.Codec
import ClusterMetrics.Proofs.CategoryMasks
import ClusterMetrics.Proofs.CommaLists
import ClusterMetrics.Proofs.Decimal
import ClusterMetrics.Proofs.Readings

/-! # Masks as texts

Digits alone are read as a mask of 32 bits, any other text as a comma list. The list is read exactly if each of its
words is the name of a category, `all` or `none`, in any case, and its mask is the union of what they name; so neither
the order of the words counts nor how often one comes. What is printed for a mask is read as its defined bits
(`CategoryMask.parse_decides`). -/

namespace ClusterMetrics.CategoryMask
open Text
variable {a b m x : CategoryMask} {word name : List Char} {words : List (List Char)} {ms : List CategoryMask}
  {input : String} {e : ParseError} {c : Category} {i : Nat}

/-! ### Names -/

/-- What a word selects, in any case. -/
inductive Names (word : List Char) : CategoryMask → Prop
  | all (h : EqIgnoringCase word "all".toList) : Names word all
  | none (h : EqIgnoringCase word "none".toList) : Names word none
  | category (c : Category) (h : EqIgnoringCase word c.name.toList) : Names word (single c)

theorem toLowerAscii_name (c : Category) : toLowerAscii c.name.toList = c.name.toList := by cases c <;> decide

theorem ofName?_eq_some_iff : ofName? word = some m ↔ Names word m := by
  have hall : toLowerAscii "all".toList = "all".toList := by decide
  have hnone : toLowerAscii "none".toList = "none".toList := by decide
  constructor
  · intro h
    unfold ofName? at h
    dsimp only at h
    split at h
    next hword =>
      cases h
      exact .all ((ofList_toLowerAscii_eq_iff hall).1 hword)
    next =>
    split at h
    next hword =>
      cases h
      exact .none ((ofList_toLowerAscii_eq_iff hnone).1 hword)
    next =>
      obtain ⟨c, hc, rfl⟩ := Option.map_eq_some_iff.1 h
      have hname := List.find?_some hc
      exact .category c ((ofList_toLowerAscii_eq_iff (toLowerAscii_name c)).1 (beq_iff_eq.1 hname).symm)
  · rintro (h | h | ⟨c, h⟩)
    · rw [ofName?, (ofList_toLowerAscii_eq_iff hall).2 h]
      rfl
    · rw [ofName?, (ofList_toLowerAscii_eq_iff hnone).2 h]
      rfl
    · rw [ofName?, (ofList_toLowerAscii_eq_iff (toLowerAscii_name c)).2 h]
      cases c <;> rfl

theorem Names.congr {other : List Char} (h : Names word m) (hcase : EqIgnoringCase other word) : Names other m := by
  rcases h with h | h | ⟨c, h⟩
  · exact .all (hcase.trans h)
  · exact .none (hcase.trans h)
  · exact .category c (hcase.trans h)

/-! ### Unions -/

/-- The bits that some mask of the list has. -/
def unionAll (ms : List CategoryMask) : CategoryMask := ms.foldl union none

theorem isSet_unionAll : (unionAll ms).isSet i = ms.any (·.isSet i) := by
  have hfrom : ∀ m : CategoryMask, (ms.foldl union m).isSet i = (m.isSet i || ms.any (·.isSet i)) := by
    induction ms with
    | nil => exact fun m => (Bool.or_false _).symm
    | cons x ms ih =>
      intro m
      rw [List.foldl_cons, ih, isSet_union, List.any_cons, Bool.or_assoc]
  rw [unionAll, hfrom, isSet_none, Bool.false_or]

theorem unionAll_map_single (cs : List Category) : unionAll (cs.map single) = ofCategories cs := List.foldl_map ..

/-- What a list of words selects is said word by word, without regard to their order. -/
theorem isSet_unionAll_iff (h : List.Forall₂ Names words ms) :
    (unionAll ms).isSet i = true ↔ ∃ word ∈ words, ∃ m, Names word m ∧ m.isSet i = true := by
  rw [isSet_unionAll]
  induction h with
  | nil => exact iff_of_false Bool.false_ne_true fun ⟨_, hword, _⟩ => List.not_mem_nil hword
  | @cons word m words ms hm _ ih =>
    rw [List.any_cons, Bool.or_eq_true, ih, List.exists_mem_cons_iff]
    have honly : ∀ x, Names word x → x = m := fun x hx =>
      Option.some_inj.1 ((ofName?_eq_some_iff.2 hx).symm.trans (ofName?_eq_some_iff.2 hm))
    refine or_congr_left ⟨fun h => ⟨m, hm, h⟩, ?_⟩
    rintro ⟨x, hx, h⟩
    exact honly x hx ▸ h

/-! ### Reading -/

/-- The words of a list. -/
def wordsOf (input : String) : List (List Char) := commaList (trim input.toList)

def readWord (word : List Char) : Except ParseError CategoryMask :=
  (ofName? word).elim (.error ⟨String.ofList word⟩) .ok

theorem readWord_eq_ok_iff : readWord word = .ok m ↔ Names word m := by
  rw [readWord, Except.elim_eq_ok_iff, ofName?_eq_some_iff]

theorem readWord_eq_error_iff : readWord word = .error e ↔ (¬ ∃ m, Names word m) ∧ e = ⟨String.ofList word⟩ := by
  simp only [readWord, Except.elim_eq_error_iff, ofName?_eq_some_iff]

theorem parse_of_isDigits (h : IsDigits (trim input.toList)) : parse input =
    if Nat.ofDigitChars 10 (trim input.toList) 0 < 0x100000000
    then .ok ⟨UInt32.ofNat (Nat.ofDigitChars 10 (trim input.toList) 0)⟩
    else .error ⟨String.ofList (trim input.toList)⟩ := by
  unfold parse
  dsimp only
  rw [readDecimal?_of_isDigits h]

theorem parse_of_not_isDigits (h : ¬ IsDigits (trim input.toList)) :
    parse input = ((wordsOf input).mapM readWord).map unionAll := by
  unfold parse
  dsimp only
  rw [readDecimal?_of_not_isDigits h]
  refine Eq.trans ?_ (foldlM_eq_map_mapM union none)
  refine congrArg ((wordsOf input).foldlM · none) (funext₂ fun m word => ?_)
  unfold readWord
  cases ofName? word <;> rfl

theorem parse_eq_ok_iff_of_isDigits (h : IsDigits (trim input.toList)) :
    parse input = .ok m ↔ m.bits.toNat = Nat.ofDigitChars 10 (trim input.toList) 0 := by
  rw [parse_of_isDigits h]
  generalize Nat.ofDigitChars 10 (trim input.toList) 0 = n
  obtain ⟨bits⟩ := m
  split
  next hlt =>
    rw [Except.ok.injEq, CategoryMask.mk.injEq, ← UInt32.toNat_inj, UInt32.toNat_ofNat_of_lt' hlt, eq_comm]
  next hlarge =>
    refine iff_of_false nofun fun heq => hlarge ?_
    exact heq ▸ bits.toNat_lt

theorem parse_eq_error_iff_of_isDigits (h : IsDigits (trim input.toList)) : parse input = .error e ↔
    2 ^ 32 ≤ Nat.ofDigitChars 10 (trim input.toList) 0 ∧ e = ⟨String.ofList (trim input.toList)⟩ := by
  rw [parse_of_isDigits h]
  split
  next hlt => exact iff_of_false nofun fun h => absurd hlt (Nat.not_lt.2 h.1)
  next hlarge =>
    have hge : 2 ^ 32 ≤ Nat.ofDigitChars 10 (trim input.toList) 0 := Nat.not_lt.1 hlarge
    rw [Except.error.injEq, and_iff_right hge, eq_comm]

section Lists
variable (h : ¬ IsDigits (trim input.toList))
include h

theorem parse_eq_ok_iff_of_not_isDigits :
    parse input = .ok m ↔ ∃ ms, List.Forall₂ Names (wordsOf input) ms ∧ m = unionAll ms := by
  simp only [parse_of_not_isDigits h, Except.map_eq_ok_iff, mapM_eq_ok_iff, readWord_eq_ok_iff, @eq_comm _ m]

theorem exists_parse_eq_ok_iff :
    (∃ m, parse input = .ok m) ↔ ∀ word ∈ wordsOf input, ∃ m, Names word m := by
  simp only [← readWord_eq_ok_iff]
  rw [← exists_mapM_eq_ok_iff]
  simp only [parse_of_not_isDigits h, Except.map_eq_ok_iff]
  exact ⟨fun ⟨_, ms, hms, _⟩ => ⟨ms, hms⟩, fun ⟨ms, hms⟩ => ⟨_, ms, hms, rfl⟩⟩

theorem parse_eq_error_iff_of_not_isDigits : parse input = .error e ↔ ∃ before word after,
    wordsOf input = before ++ word :: after ∧ (∀ w ∈ before, ∃ m, Names w m) ∧ (¬ ∃ m, Names word m) ∧
      e = ⟨String.ofList word⟩ := by
  simp only [parse_of_not_isDigits h, Except.map_eq_error_iff, mapM_eq_error_iff, readWord_eq_ok_iff,
    readWord_eq_error_iff]

theorem isSet_of_parse (hm : parse input = .ok m) :
    m.isSet i = true ↔ ∃ word ∈ wordsOf input, ∃ x, Names word x ∧ x.isSet i = true := by
  obtain ⟨ms, hms, rfl⟩ := (parse_eq_ok_iff_of_not_isDigits h).1 hm
  exact isSet_unionAll_iff hms

end Lists

/-! ### Lists with the same words -/

/-- The lists have the same words, in any order, any case and any number. -/
def SameWords (input other : String) : Prop :=
  ∀ word, word ∈ (wordsOf input).map toLowerAscii ↔ word ∈ (wordsOf other).map toLowerAscii

theorem SameWords.symm {other : String} (h : SameWords input other) : SameWords other input := fun word => (h word).symm

theorem SameWords.exists_mem {other : String} (h : SameWords input other) (hword : word ∈ wordsOf input) :
    ∃ w ∈ wordsOf other, EqIgnoringCase w word :=
  List.mem_map.1 ((h _).1 (List.mem_map_of_mem hword))

theorem SameWords.parse_eq_ok {other : String} (h : SameWords input other) (hinput : ¬ IsDigits (trim input.toList))
    (hother : ¬ IsDigits (trim other.toList)) (hm : parse input = .ok m) : parse other = .ok m := by
  have hknown := (exists_parse_eq_ok_iff hinput).1 ⟨m, hm⟩
  obtain ⟨m', hm'⟩ : ∃ m', parse other = .ok m' := by
    refine (exists_parse_eq_ok_iff hother).2 fun word hword => ?_
    obtain ⟨w, hw, hcase⟩ := h.symm.exists_mem hword
    obtain ⟨x, hx⟩ := hknown w hw
    exact ⟨x, hx.congr hcase.symm⟩
  have hbits : ∀ {s t : String}, SameWords s t → ∀ i,
      (∃ word ∈ wordsOf s, ∃ x, Names word x ∧ x.isSet i = true) →
        ∃ word ∈ wordsOf t, ∃ x, Names word x ∧ x.isSet i = true := by
    rintro s t hsame i ⟨word, hword, x, hx, hi⟩
    obtain ⟨w, hw, hcase⟩ := hsame.exists_mem hword
    exact ⟨w, hw, x, hx.congr hcase, hi⟩
  have hsame : m' = m := by
    refine ext_isSet fun i => Bool.eq_iff_iff.2 ?_
    rw [isSet_of_parse hother hm', isSet_of_parse hinput hm]
    exact ⟨hbits h.symm i, hbits h i⟩
  rw [hm', hsame]

theorem SameWords.toOption_parse {other : String} (h : SameWords input other)
    (hinput : ¬ IsDigits (trim input.toList)) (hother : ¬ IsDigits (trim other.toList)) :
    (parse other).toOption = (parse input).toOption :=
  Except.toOption_congr fun _ => ⟨h.symm.parse_eq_ok hother hinput, h.parse_eq_ok hinput hother⟩

/-! ### Printed masks -/

theorem plain_of_mem_name (c : Category) :
    ∀ ch ∈ c.name.toList, ch ≠ ',' ∧ ch.isDigit = false ∧ isBlank ch = false := by
  have hplain : (c.name.toList.all fun ch => ch != ',' && !ch.isDigit && !isBlank ch) = true := by
    cases c <;> decide
  intro ch hch
  simpa [and_assoc] using List.all_eq_true.1 hplain ch hch

theorem isEntry_name (c : Category) : IsEntry c.name.toList where
  ne_nil := by cases c <;> decide
  trim_eq := trim_of_forall_not_blank fun ch hch => (plain_of_mem_name c ch hch).2.2
  comma_notMem := fun hcomma => (plain_of_mem_name c _ hcomma).1 rfl

/-- No digits and no blanks stand in a list of names. -/
theorem plain_of_mem_intercalate {cs : List Category} {ch : Char}
    (h : ch ∈ [','].intercalate (cs.map fun c => c.name.toList)) : ch.isDigit = false ∧ isBlank ch = false := by
  induction cs with
  | nil => cases h
  | cons c cs ih =>
    by_cases hcs : cs = []
    · rw [hcs, List.map_singleton, List.intercalate_singleton] at h
      exact (plain_of_mem_name c ch h).2
    · rw [List.map_cons, List.intercalate_cons_of_ne_nil (mt List.map_eq_nil_iff.1 hcs), List.mem_append,
        List.mem_append, List.mem_singleton] at h
      rcases h with (h | rfl) | h
      · exact (plain_of_mem_name c ch h).2
      · decide
      · exact ih h

theorem isSet_all : all.isSet i = Category.all.any (·.place == i) := by
  have hall : all = ofCategories Category.all := by decide
  rw [hall, isSet_ofCategories]

theorem ofCategories_categories (m : CategoryMask) : ofCategories m.categories = m.inter all := by
  refine ext_isSet fun i => ?_
  rw [isSet_ofCategories, categories, List.any_filter, isSet_inter, isSet_all]
  have hplace : ∀ c : Category, (m.has c && c.place == i) = (m.isSet i && c.place == i) := by
    intro c
    rw [has_eq_isSet]
    cases hc : c.place == i with
    | true => rw [beq_iff_eq.1 hc]
    | false => rw [Bool.and_false, Bool.and_false]
  simp only [hplace]
  cases m.isSet i <;> simp

/-- What is printed has the names of the categories that are selected; a mask without any bit is `none`. -/
theorem parse_intercalate (cs : List Category) (h : input.toList = [','].intercalate (cs.map fun c => c.name.toList)) :
    parse input = .ok (ofCategories cs) := by
  have hplain : ∀ ch ∈ input.toList, ch.isDigit = false ∧ isBlank ch = false := fun ch hch =>
    plain_of_mem_intercalate (h ▸ hch)
  have htrim : trim input.toList = input.toList := trim_of_forall_not_blank fun ch hch => (hplain ch hch).2
  have hdigits : ¬ IsDigits (trim input.toList) := by
    rw [htrim]
    rintro ⟨hne, hall⟩
    obtain ⟨ch, hch⟩ := List.exists_mem_of_ne_nil _ hne
    cases (hall ch hch).symm.trans (hplain ch hch).1
  refine (parse_eq_ok_iff_of_not_isDigits hdigits).2 ⟨cs.map single, ?_, (unionAll_map_single cs).symm⟩
  have hwords : wordsOf input = cs.map fun c => c.name.toList := by
    rw [wordsOf, htrim, h, commaList_intercalate, List.flatMap_map]
    simp only [commaList_of_isEntry (isEntry_name _)]
    exact List.map_eq_flatMap.symm
  rw [hwords, List.forall₂_map_left_iff, List.forall₂_map_right_iff]
  exact List.forall₂_same.2 fun c _ => .category c rfl

theorem parse_format (m : CategoryMask) : parse m.format = .ok (m.inter all) := by
  rw [← ofCategories_categories, format]
  split
  next hempty =>
    have hnone : m = none := congrArg CategoryMask.mk (beq_iff_eq.1 hempty)
    rw [hnone]
    decide +kernel
  next hsome =>
    refine parse_intercalate m.categories ?_
    rw [String.toList_intercalate, List.map_map]
    rfl

/-- Digits alone are read as the mask with that number if 32 bits have room for it. Any other text is a list, and is
read as the union of what its words name, wherever they stand; the error shows the first word that names nothing. What
is printed for a mask is read as its defined bits. -/
theorem parse_decides :
    (∀ input, IsDigits (trim input.toList) →
      (∀ m, parse input = .ok m ↔ m.bits.toNat = Nat.ofDigitChars 10 (trim input.toList) 0) ∧
      ∀ e, parse input = .error e ↔
        2 ^ 32 ≤ Nat.ofDigitChars 10 (trim input.toList) 0 ∧ e = ⟨String.ofList (trim input.toList)⟩) ∧
    (∀ input, ¬ IsDigits (trim input.toList) →
      ((∃ m, parse input = .ok m) ↔ ∀ word ∈ wordsOf input, ∃ m, Names word m) ∧
      (∀ m, parse input = .ok m ↔ ∃ ms, List.Forall₂ Names (wordsOf input) ms ∧ m = unionAll ms) ∧
      (∀ e, parse input = .error e ↔ ∃ before word after, wordsOf input = before ++ word :: after ∧
        (∀ w ∈ before, ∃ m, Names w m) ∧ (¬ ∃ m, Names word m) ∧ e = ⟨String.ofList word⟩) ∧
      ∀ other, ¬ IsDigits (trim other.toList) → SameWords input other →
        (parse other).toOption = (parse input).toOption) ∧
    ∀ m : CategoryMask, parse m.format = .ok (m.inter all) := by
  refine ⟨fun input h => ⟨fun _ => parse_eq_ok_iff_of_isDigits h, fun _ => parse_eq_error_iff_of_isDigits h⟩,
    fun input h => ⟨exists_parse_eq_ok_iff h, fun _ => parse_eq_ok_iff_of_not_isDigits h,
      fun _ => parse_eq_error_iff_of_not_isDigits h, fun other hother hsame => hsame.toOption_parse h hother⟩,
    parse_format⟩

/-- A number with a zero in front, and two lists with the same words. -/
theorem parse_sameWords :
    parse " 0129 " = .ok ⟨129⟩ ∧ SameWords " CPU,, scanner,cpu" "Scanner , cpu" ∧
    (parse "Scanner , cpu").toOption = some ⟨129⟩ := by
  have hnumber : IsDigits (trim " 0129 ".toList) := by decide +kernel
  have hlist : ¬ IsDigits (trim " CPU,, scanner,cpu".toList) := by decide +kernel
  have hother : ¬ IsDigits (trim "Scanner , cpu".toList) := by decide +kernel
  have hsame : SameWords " CPU,, scanner,cpu" "Scanner , cpu" := by
    have hwords : (wordsOf " CPU,, scanner,cpu").map toLowerAscii = ["cpu".toList, "scanner".toList, "cpu".toList] := by
      decide +kernel
    have hwords' : (wordsOf "Scanner , cpu").map toLowerAscii = ["scanner".toList, "cpu".toList] := by
      decide +kernel
    intro word
    rw [hwords, hwords']
    simp [or_comm, or_left_comm]
  have hread : parse " CPU,, scanner,cpu" = .ok ⟨129⟩ := by decide +kernel
  refine ⟨((parse_decides.1 _ hnumber).1 ⟨129⟩).2 (by decide +kernel), hsame, ?_⟩
  rw [(parse_decides.2.1 _ hlist).2.2.2 _ hother hsame, hread]
  rfl

end ClusterMetrics.CategoryMask
