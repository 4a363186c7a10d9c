import ShutdownLint.BuildFile
import ShutdownLint.Proofs.Text.Blank
/-!
The grammar of lines that launch a process through a shell, and the proof that `violation?` decides
it. A line is in shell form for a keyword if it is made of a blank, the keyword in any case, a blank
that is not empty, and a character that is neither white space nor the bracket of a list. Every line
either ends behind its first word or goes on with an argument (`line_cases`), and what
`instruction?` answers is known in both cases.
-/

set_option autoImplicit false

namespace ShutdownLint.BuildFile

open Text

/-- The line launches something through a shell: a keyword, and a command that is no list. -/
def ShellForm (keyword : String) (line : List Char) : Prop :=
  ∃ (indent word gap : List Char) (first : Char) (rest : List Char),
    line = indent ++ word ++ gap ++ first :: rest ∧
      IsBlank indent ∧ word.map upperChar = keyword.toList ∧ IsBlank gap ∧ gap ≠ [] ∧
      isWhiteSpace first = false ∧ first ≠ '['

/-! ### Lines with and without an argument -/

theorem instruction?_of_argument {indent word gap : List Char} {first : Char} (rest : List Char)
    (hi : IsBlank indent) (hw : IsSolid word) (hne : word ≠ []) (hg : IsBlank gap)
    (hgap : gap ≠ []) (hf : isWhiteSpace first = false) :
    instruction? (trimChars (indent ++ word ++ gap ++ first :: rest)) =
      some (word, first :: rest.rdropWhile isWhiteSpace) := by
  obtain ⟨c, word, rfl⟩ := List.exists_cons_of_ne_nil hne
  obtain ⟨g, gap, rfl⟩ := List.exists_cons_of_ne_nil hgap
  obtain ⟨hblank, hg⟩ := List.forall_mem_cons.mp hg
  have hc : isWhiteSpace c = false := hw c List.mem_cons_self
  have hend : ∀ d ∈ (g :: (gap ++ first :: rest.rdropWhile isWhiteSpace)).head?,
      isWhiteSpace d = true := by
    intro d hd
    obtain rfl : g = d := by simpa using hd
    exact hblank
  have htrim : trimChars (indent ++ (c :: word) ++ (g :: gap) ++ first :: rest) =
      (c :: word) ++ g :: (gap ++ first :: rest.rdropWhile isWhiteSpace) := by
    rw [trimChars_eq, List.append_assoc, List.append_assoc, dropWhile_blank_append hi,
      List.cons_append, List.dropWhile_cons_of_neg (by simp [hc]), ← List.cons_append,
      ← List.append_assoc, rdropWhile_append_cons hf, List.append_assoc]
    rfl
  have hargument : trimChars (gap ++ first :: rest.rdropWhile isWhiteSpace) =
      first :: rest.rdropWhile isWhiteSpace := by
    rw [trimChars_eq, dropWhile_blank_append hg, List.dropWhile_cons_of_neg (by simp [hf]),
      ← List.nil_append (first :: _), rdropWhile_append_cons hf, List.rdropWhile_idempotent]
  rw [htrim, instruction?, dropWhile_solid_append hw hend, takeWhile_solid_append hw hend]
  exact congrArg (fun argument ↦ some (c :: word, argument)) hargument

theorem instruction?_of_no_argument {indent word trail : List Char} (hi : IsBlank indent)
    (hw : IsSolid word) (ht : IsBlank trail) :
    instruction? (trimChars (indent ++ word ++ trail)) = none := by
  have htrim : trimChars (indent ++ word) = word := by
    rw [trimChars_eq, dropWhile_blank_append hi]
    cases word with
    | nil => rfl
    | cons c word =>
      have hc : isWhiteSpace c = false := hw c List.mem_cons_self
      rw [List.dropWhile_cons_of_neg (by simp [hc]), List.rdropWhile_eq_self_iff]
      intro hne
      simpa using hw _ (List.getLast_mem hne)
  have hdrop : word.dropWhile (!isWhiteSpace ·) = [] :=
    List.dropWhile_eq_nil_iff.mpr (by simpa [IsSolid] using hw)
  rw [trimChars_append_blank ht, htrim, instruction?, hdrop]

/-- A line ends behind its first word, or it goes on with an argument. -/
theorem line_cases (line : List Char) :
    (∃ indent word trail : List Char, IsBlank indent ∧ IsSolid word ∧ IsBlank trail ∧
      line = indent ++ word ++ trail) ∨
    ∃ (indent word gap : List Char) (first : Char) (rest : List Char), IsBlank indent ∧
      IsSolid word ∧ word ≠ [] ∧ IsBlank gap ∧ gap ≠ [] ∧ isWhiteSpace first = false ∧
      line = indent ++ word ++ gap ++ first :: rest := by
  obtain ⟨indent, body, hi, hbody, rfl⟩ := exists_blank_append line
  obtain ⟨word, tail, hw, htail, rfl⟩ := exists_solid_append body
  obtain ⟨gap, argument, hg, hargument, rfl⟩ := exists_blank_append tail
  cases argument with
  | nil => exact Or.inl ⟨indent, word, gap, hi, hw, hg, by simp⟩
  | cons first rest =>
    have hfirst : isWhiteSpace first = false := hargument first rfl
    have hgap : gap ≠ [] := by
      rintro rfl
      simp [htail first rfl] at hfirst
    have hword : word ≠ [] := by
      rintro rfl
      obtain ⟨g, gap, rfl⟩ := List.exists_cons_of_ne_nil hgap
      have hblank : isWhiteSpace g = true := hg g List.mem_cons_self
      simp [hbody g rfl] at hblank
    exact Or.inr ⟨indent, word, gap, first, rest, hi, hw, hword, hg, hgap, hfirst, by simp⟩

/-! ### The decision -/

theorem launcher?_eq_some_iff {word : List Char} {r : Rule} :
    launcher? word = some r ↔
      ∃ keyword, (keyword, r) ∈ launchers ∧ word.map upperChar = keyword.toList := by
  unfold launcher?
  constructor
  · intro h
    obtain ⟨before, after, hsplit, -⟩ := List.lookup_eq_some_iff.mp h
    exact ⟨_, hsplit ▸ List.mem_append_right _ List.mem_cons_self, by simp⟩
  · rintro ⟨keyword, hmem, hword⟩
    rw [hword, String.ofList_toList]
    rcases List.mem_cons.mp hmem with h | h
    · cases h
      rfl
    · cases List.mem_singleton.mp h
      rfl

theorem isSolid_of_mem_launchers {keyword : String} {r : Rule} (h : (keyword, r) ∈ launchers) :
    IsSolid keyword.toList ∧ keyword.toList ≠ [] := by
  rcases List.mem_cons.mp h with h | h
  · cases h
    exact ⟨by decide, by decide⟩
  · cases List.mem_singleton.mp h
    exact ⟨by decide, by decide⟩

theorem launcher?_numberSign (word : List Char) : launcher? ('#' :: word) = none := by
  refine Option.eq_none_iff_forall_ne_some.mpr fun r h ↦ ?_
  obtain ⟨keyword, hmem, hword⟩ := launcher?_eq_some_iff.mp h
  have hhead : keyword.toList.head? = some '#' := by
    rw [← hword]
    rfl
  rcases List.mem_cons.mp hmem with h | h
  · cases h
    cases hhead
  · cases List.mem_singleton.mp h
    cases hhead

/-- The test for empty lines and comments could be left out: an empty line has no instruction, and
the keyword of a comment launches nothing. -/
theorem violation?_eq (line : List Char) : violation? line =
    (instruction? (trimChars line)).bind fun (keyword, argument) ↦
      (launcher? keyword).bind fun r ↦ if isExecForm argument then none else some r := by
  simp only [violation?]
  split
  case isFalse => rfl
  case isTrue hskip =>
    cases htrim : trimChars line with
    | nil => rfl
    | cons c cs =>
      obtain rfl : c = '#' := by simpa [htrim] using hskip
      have hword : ('#' :: cs).takeWhile (!isWhiteSpace ·) =
          '#' :: cs.takeWhile (!isWhiteSpace ·) := List.takeWhile_cons_of_pos (by decide)
      unfold instruction?
      split
      · rfl
      · simp [hword, launcher?_numberSign]

theorem violation?_of_argument {indent word gap : List Char} {first : Char} (rest : List Char)
    (hi : IsBlank indent) (hw : IsSolid word) (hne : word ≠ []) (hg : IsBlank gap)
    (hgap : gap ≠ []) (hf : isWhiteSpace first = false) :
    violation? (indent ++ word ++ gap ++ first :: rest) =
      if first = '[' then none else launcher? word := by
  rw [violation?_eq, instruction?_of_argument rest hi hw hne hg hgap hf]
  cases h : launcher? word <;> simp [h, isExecForm]

/-- A carriage return at the end of a line makes no difference. -/
theorem violation?_append_return (line : List Char) :
    violation? (line ++ ['\r']) = violation? line := by
  have hblank : IsBlank ['\r'] := by decide
  rw [violation?, trimChars_append_blank hblank, violation?]

/-- A line violates a rule exactly if it is in shell form for a keyword of this rule. -/
theorem violation?_eq_some_iff {line : List Char} {r : Rule} :
    violation? line = some r ↔ ∃ keyword, (keyword, r) ∈ launchers ∧ ShellForm keyword line := by
  constructor
  · intro h
    rcases line_cases line with ⟨indent, word, trail, hi, hw, ht, rfl⟩ |
      ⟨indent, word, gap, first, rest, hi, hw, hne, hg, hgap, hf, rfl⟩
    · rw [violation?_eq, instruction?_of_no_argument hi hw ht] at h
      cases h
    · rw [violation?_of_argument rest hi hw hne hg hgap hf] at h
      split_ifs at h with hbracket
      obtain ⟨keyword, hmem, hword⟩ := launcher?_eq_some_iff.mp h
      exact ⟨keyword, hmem, indent, word, gap, first, rest, rfl, hi, hword, hg, hgap, hf, hbracket⟩
  · rintro ⟨keyword, hmem, indent, word, gap, first, rest, rfl, hi, hword, hg, hgap, hf, hbracket⟩
    obtain ⟨hsolid, hkeyword⟩ := isSolid_of_mem_launchers hmem
    have hw : IsSolid word := isSolid_of_map_upperChar (hword ▸ hsolid)
    have hne : word ≠ [] := by
      rintro rfl
      exact hkeyword hword.symm
    rw [violation?_of_argument rest hi hw hne hg hgap hf, if_neg hbracket]
    exact launcher?_eq_some_iff.mpr ⟨keyword, hmem, hword⟩

end ShutdownLint.BuildFile
