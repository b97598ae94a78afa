import Mathlib.Data.List.DropRight
import ClusterMetrics.Text.Blank

/-! # Comma lists

What is read from a comma list are its entries: texts without commas that are not empty and have no blank at either end
(`isEntry_of_mem_commaList`). An entry is read as itself (`commaList_of_isEntry`), and texts that are joined by commas
are read as the entries of each of them in turn (`commaList_intercalate`). Entries that are words may be compared
without regard to the case of their letters (`EqIgnoringCase`). -/

namespace ClusterMetrics.Text
variable {sep : Char} {cs : List Char}

/-! ### Pieces -/

theorem splitOn_eq (sep : Char) (cs : List Char) : splitOn sep cs = cs.splitOn sep := by
  induction cs with
  | nil => rfl
  | cons c cs ih =>
    obtain ⟨p, ps, heq⟩ := List.exists_cons_of_ne_nil (List.splitOn_ne_nil sep cs)
    have hrest : splitOn sep cs = p :: ps := ih.trans heq
    unfold splitOn at hrest ⊢
    rw [List.foldr_cons, hrest, List.splitOn_cons_eq_if_modifyHead]
    simp only [heq, List.modifyHead_cons, beq_iff_eq]

theorem notMem_of_mem_splitOn {p : List Char} (h : p ∈ splitOn sep cs) : sep ∉ p := by
  induction cs generalizing p with
  | nil => cases List.mem_singleton.1 h; exact List.not_mem_nil
  | cons c cs ih =>
    obtain ⟨q, qs, heq⟩ := List.exists_cons_of_ne_nil (List.splitOn_ne_nil sep cs)
    rw [splitOn_eq, heq] at ih
    rw [splitOn_eq, List.splitOn_cons_eq_if_modifyHead, heq] at h
    split at h
    · rcases List.mem_cons.1 h with rfl | h
      · exact List.not_mem_nil
      · exact ih h
    next hc =>
      rcases List.mem_cons.1 h with rfl | h
      · exact fun hmem => (List.mem_cons.1 hmem).elim (fun hsep => hc (beq_iff_eq.2 hsep.symm)) (ih List.mem_cons_self)
      · exact ih (List.mem_cons_of_mem q h)

theorem splitOn_append_cons (sep : Char) (cs ds : List Char) :
    splitOn sep (cs ++ sep :: ds) = splitOn sep cs ++ splitOn sep ds := by
  simp only [splitOn_eq]
  exact List.splitOn_append_cons_self cs ds

/-- Texts joined by the separator are cut into the pieces of each of them. -/
theorem splitOn_intercalate {css : List (List Char)} (h : css ≠ []) :
    splitOn sep ([sep].intercalate css) = css.flatMap (splitOn sep) := by
  induction css with
  | nil => exact absurd rfl h
  | cons cs css ih =>
    rw [List.flatMap_cons]
    by_cases hcss : css = []
    · rw [hcss, List.intercalate_singleton, List.flatMap_nil, List.append_nil]
    · rw [List.intercalate_cons_of_ne_nil hcss, ← ih hcss, List.append_assoc, List.singleton_append,
        splitOn_append_cons]

theorem cutAt_append {before : List Char} (h : sep ∉ before) (after : List Char) :
    cutAt (· == sep) (before ++ sep :: after) = some (before, after) := by
  have hbefore : ∀ c ∈ before, (!(c == sep)) = true := fun c hc => by
    simpa using fun heq : c = sep => h (heq ▸ hc)
  unfold cutAt
  rw [List.dropWhile_append_of_pos hbefore, List.takeWhile_append_of_pos hbefore]
  simp

theorem cutAt_eq_none (h : sep ∉ cs) : cutAt (· == sep) cs = none := by
  have hcs : ∀ c ∈ cs, (!(c == sep)) = true := fun c hc => by
    simpa using fun heq : c = sep => h (heq ▸ hc)
  rw [cutAt, List.dropWhile_eq_nil_iff.2 hcs]

/-! ### Blanks at the ends -/

theorem prefix_of_trim (cs : List Char) : trim cs <+: cs.dropWhile isBlank := List.rdropWhile_prefix ..

theorem mem_of_mem_trim {c : Char} (h : c ∈ trim cs) : c ∈ cs :=
  List.dropWhile_subset _ ((prefix_of_trim cs).subset h)

theorem trim_eq_self (hfirst : ∀ c ∈ cs.head?, isBlank c = false) (hlast : ∀ c ∈ cs.getLast?, isBlank c = false) :
    trim cs = cs := by
  have hdrop : cs.dropWhile isBlank = cs := by
    cases cs with
    | nil => rfl
    | cons c cs => exact List.dropWhile_cons_of_neg (Bool.not_eq_true _ ▸ hfirst c rfl)
  rw [trim, hdrop]
  refine List.rdropWhile_eq_self_iff.2 fun hne => ?_
  rw [hlast _ (List.getLast?_eq_getLast_of_ne_nil hne)]
  exact Bool.false_ne_true

theorem trim_of_forall_not_blank (h : ∀ c ∈ cs, isBlank c = false) : trim cs = cs :=
  trim_eq_self (fun c hc => h c (List.mem_of_mem_head? hc)) fun c hc => h c (List.mem_of_mem_getLast? hc)

theorem trim_append_blank {c : Char} (h : isBlank c = true) (cs : List Char) : trim (cs ++ [c]) = trim cs := by
  rw [trim, List.dropWhile_append]
  split
  next hcs => rw [List.dropWhile_cons_of_pos h, trim, List.isEmpty_iff.1 hcs, List.dropWhile_nil]
  next => exact List.rdropWhile_concat_pos _ _ _ h

theorem trim_trim (cs : List Char) : trim (trim cs) = trim cs := by
  refine trim_eq_self (fun c hc => ?_) fun c hc => ?_
  · obtain ⟨rest, heq⟩ := prefix_of_trim cs
    have hfirst := List.head?_dropWhile_not isBlank cs
    rw [← heq, List.head?_append_of_ne_nil _ (List.ne_nil_of_mem (List.mem_of_mem_head? hc)), hc] at hfirst
    simpa using hfirst
  · obtain ⟨hne, rfl⟩ := List.mem_getLast?_eq_getLast hc
    exact Bool.not_eq_true _ ▸ List.rdropWhile_last_not _ _ hne

/-! ### Entries -/

/-- A text that a comma list can have as an entry. -/
structure IsEntry (cs : List Char) : Prop where
  ne_nil : cs ≠ []
  trim_eq : trim cs = cs
  comma_notMem : ',' ∉ cs

theorem isEntry_of_mem_commaList {e : List Char} (h : e ∈ commaList cs) : IsEntry e := by
  obtain ⟨hmem, hne⟩ := List.mem_filter.1 h
  obtain ⟨p, hp, rfl⟩ := List.mem_map.1 hmem
  refine ⟨by simpa using hne, trim_trim p, fun hcomma => ?_⟩
  exact notMem_of_mem_splitOn hp (mem_of_mem_trim hcomma)

theorem commaList_of_isEntry (h : IsEntry cs) : commaList cs = [cs] := by
  have hpieces : splitOn ',' cs = [cs] := by
    rw [splitOn_eq]
    exact List.splitOn_eq_singleton h.comma_notMem
  rw [commaList, hpieces, List.map_singleton, h.trim_eq]
  simp [h.ne_nil]

theorem commaList_intercalate (css : List (List Char)) : commaList ([','].intercalate css) = css.flatMap commaList := by
  by_cases h : css = []
  · rw [h]; rfl
  · rw [commaList, splitOn_intercalate h, List.map_flatMap, List.filter_flatMap]
    rfl

/-! ### Upper and lower case -/

/-- The texts differ in the case of ASCII letters at most. -/
def EqIgnoringCase (cs ds : List Char) : Prop := toLowerAscii cs = toLowerAscii ds

instance (cs ds : List Char) : Decidable (EqIgnoringCase cs ds) := inferInstanceAs (Decidable (_ = _))

/-- To compare with a word in lower case, the other text is put into lower case. -/
theorem ofList_toLowerAscii_eq_iff {word : String} (h : toLowerAscii word.toList = word.toList) :
    String.ofList (toLowerAscii cs) = word ↔ EqIgnoringCase cs word.toList := by
  rw [EqIgnoringCase, h]
  constructor
  · rintro rfl
    exact (String.toList_ofList).symm
  · intro heq
    rw [heq, String.ofList_toList]

end ClusterMetrics.Text
