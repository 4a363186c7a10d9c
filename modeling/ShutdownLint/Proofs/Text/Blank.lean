import Mathlib.Data.List.DropRight
import Mathlib.Data.List.TakeWhile
import ShutdownLint.Text.WhiteSpace
/-!
Blanks and words. A text is blank if all of it is white space and solid if none of it is. Trimming
removes a blank from each end and nothing else, and a word ends where a blank begins.
-/

set_option autoImplicit false

namespace ShutdownLint.Text

/-- All of it is white space; it may be empty. -/
def IsBlank (cs : List Char) : Prop :=
  ∀ c ∈ cs, isWhiteSpace c = true

/-- None of it is white space; it may be empty. -/
def IsSolid (cs : List Char) : Prop :=
  ∀ c ∈ cs, isWhiteSpace c = false

instance (cs : List Char) : Decidable (IsBlank cs) :=
  List.decidableBAll _ cs

instance (cs : List Char) : Decidable (IsSolid cs) :=
  List.decidableBAll _ cs

theorem trimChars_eq (cs : List Char) :
    trimChars cs = (cs.dropWhile isWhiteSpace).rdropWhile isWhiteSpace := rfl

theorem isWhiteSpace_eq_false_of_letter {c : Char} (h : 0x40 < c.toNat ∧ c.toNat < 0x80) :
    isWhiteSpace c = false := by
  simp only [isWhiteSpace, whiteSpaceRanges, List.any_cons, List.any_nil, Bool.or_false,
    Bool.or_eq_false_iff, Bool.and_eq_false_iff, decide_eq_false_iff_not]
  omega

theorem toNat_upperChar (c : Char) : (upperChar c).toNat =
    if 97 ≤ c.toNat ∧ c.toNat ≤ 122 then c.toNat - 32 else c.toNat := by
  unfold upperChar
  by_cases hsmall : 'a' ≤ c ∧ c ≤ 'z'
  · have hrange : 97 ≤ c.toNat ∧ c.toNat ≤ 122 := hsmall
    have hvalid : (c.toNat - 32).isValidChar := Or.inl (by omega)
    rw [if_pos hsmall, if_pos hrange, Char.ofNat, dif_pos hvalid]
    rfl
  · have hrange : ¬(97 ≤ c.toNat ∧ c.toNat ≤ 122) := hsmall
    rw [if_neg hsmall, if_neg hrange]

theorem isWhiteSpace_upperChar (c : Char) : isWhiteSpace (upperChar c) = isWhiteSpace c := by
  have hupper := toNat_upperChar c
  split at hupper
  case isTrue h =>
    rw [isWhiteSpace_eq_false_of_letter (by omega), isWhiteSpace_eq_false_of_letter (by omega)]
  case isFalse => rw [Char.toNat_inj.mp hupper]

theorem isSolid_of_map_upperChar {word : List Char} (h : IsSolid (word.map upperChar)) :
    IsSolid word := by
  intro c hc
  rw [← isWhiteSpace_upperChar]
  exact h _ (List.mem_map_of_mem hc)

/-- The blank at the front of a text, as long as it gets. -/
theorem exists_blank_append (cs : List Char) : ∃ blank rest : List Char,
    IsBlank blank ∧ (∀ c ∈ rest.head?, isWhiteSpace c = false) ∧ cs = blank ++ rest := by
  refine ⟨cs.takeWhile isWhiteSpace, cs.dropWhile isWhiteSpace,
    fun _ hc ↦ List.mem_takeWhile_imp hc, ?_, List.takeWhile_append_dropWhile.symm⟩
  intro c hc
  simpa [Option.mem_def.mp hc] using List.head?_dropWhile_not isWhiteSpace cs

/-- The word at the front of a text, as long as it gets. -/
theorem exists_solid_append (cs : List Char) : ∃ word rest : List Char,
    IsSolid word ∧ (∀ c ∈ rest.head?, isWhiteSpace c = true) ∧ cs = word ++ rest := by
  refine ⟨cs.takeWhile (!isWhiteSpace ·), cs.dropWhile (!isWhiteSpace ·), ?_, ?_,
    List.takeWhile_append_dropWhile.symm⟩
  · intro c hc
    simpa using List.mem_takeWhile_imp hc
  · intro c hc
    simpa [Option.mem_def.mp hc] using List.head?_dropWhile_not (!isWhiteSpace ·) cs

theorem dropWhile_blank_append {blanks : List Char} (h : IsBlank blanks) (cs : List Char) :
    (blanks ++ cs).dropWhile isWhiteSpace = cs.dropWhile isWhiteSpace :=
  List.dropWhile_append_of_pos h

theorem rdropWhile_append_blank {blanks : List Char} (h : IsBlank blanks) (cs : List Char) :
    (cs ++ blanks).rdropWhile isWhiteSpace = cs.rdropWhile isWhiteSpace := by
  unfold List.rdropWhile
  rw [List.reverse_append, List.dropWhile_append_of_pos]
  intro c hc
  exact h c (List.mem_reverse.mp hc)

theorem trimChars_append_blank {blanks : List Char} (h : IsBlank blanks) (cs : List Char) :
    trimChars (cs ++ blanks) = trimChars cs := by
  rw [trimChars_eq, trimChars_eq, List.dropWhile_append]
  split_ifs with hcs
  · rw [List.isEmpty_iff.mp hcs, List.dropWhile_eq_nil_iff.mpr h]
  · exact rdropWhile_append_blank h _

/-- What stands in front of a character that is no white space is safe from the end. -/
theorem rdropWhile_append_cons {c : Char} (h : isWhiteSpace c = false) (front rest : List Char) :
    (front ++ c :: rest).rdropWhile isWhiteSpace =
      front ++ c :: rest.rdropWhile isWhiteSpace := by
  induction rest using List.reverseRecOn with
  | nil =>
    rw [List.rdropWhile_concat_neg _ _ _ (by simp [h]), List.rdropWhile_nil]
  | append_singleton rest last ih =>
    by_cases hlast : isWhiteSpace last = true
    · rw [List.rdropWhile_concat_pos _ _ _ hlast, ← List.cons_append, ← List.append_assoc,
        List.rdropWhile_concat_pos _ _ _ hlast, ih]
    · rw [List.rdropWhile_concat_neg _ _ _ hlast, ← List.cons_append, ← List.append_assoc,
        List.rdropWhile_concat_neg _ _ _ hlast]

theorem takeWhile_solid_append {word rest : List Char} (hw : IsSolid word)
    (hr : ∀ c ∈ rest.head?, isWhiteSpace c = true) :
    (word ++ rest).takeWhile (!isWhiteSpace ·) = word := by
  rw [List.takeWhile_append_of_pos (by simpa [IsSolid] using hw)]
  cases rest with
  | nil => simp
  | cons c rest => simp [hr c rfl]

theorem dropWhile_solid_append {word rest : List Char} (hw : IsSolid word)
    (hr : ∀ c ∈ rest.head?, isWhiteSpace c = true) :
    (word ++ rest).dropWhile (!isWhiteSpace ·) = rest := by
  rw [List.dropWhile_append_of_pos (by simpa [IsSolid] using hw)]
  cases rest with
  | nil => simp
  | cons c rest => simp [hr c rfl]

/-- A word without white space comes out of the blanks around it. -/
theorem trimChars_around {before word after : List Char} (hbefore : IsBlank before)
    (hword : IsSolid word) (hne : word ≠ []) (hafter : IsBlank after) :
    trimChars (before ++ word ++ after) = word := by
  have hfront : (word ++ after).dropWhile isWhiteSpace = word ++ after := by
    obtain ⟨c, cs, rfl⟩ := List.exists_cons_of_ne_nil hne
    rw [List.cons_append, List.dropWhile_cons_of_neg]
    simp [hword c List.mem_cons_self]
  have hback : word.rdropWhile isWhiteSpace = word := by
    refine List.rdropWhile_eq_self_iff.mpr fun hne ↦ ?_
    simp [hword _ (List.getLast_mem hne)]
  rw [trimChars_eq, List.append_assoc, dropWhile_blank_append hbefore, hfront,
    rdropWhile_append_blank hafter, hback]

/-- Trimming takes a blank from either end. -/
theorem exists_trimChars_around (cs : List Char) : ∃ before after : List Char,
    IsBlank before ∧ IsBlank after ∧ cs = before ++ trimChars cs ++ after := by
  refine ⟨cs.takeWhile isWhiteSpace, (cs.dropWhile isWhiteSpace).rtakeWhile isWhiteSpace,
    fun _ hc ↦ List.mem_takeWhile_imp hc, fun _ hc ↦ List.mem_rtakeWhile_imp hc, ?_⟩
  rw [trimChars_eq, List.append_assoc, List.rdropWhile_append_rtakeWhile,
    List.takeWhile_append_dropWhile]

end ShutdownLint.Text
