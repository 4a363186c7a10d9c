import ShutdownLint.Proofs.BuildFile.ShellForm
import ShutdownLint.Proofs.Text.LinePieces
import Mathlib.Algebra.Group.Nat.Defs
/-!
What is found on the lines of a build file. There is a finding for each line in shell form and for
no other line, it has the number of its line, and findings come in the order of these numbers, as
long as the numbers do not run out.
-/

set_option autoImplicit false

namespace ShutdownLint.BuildFile

open Text

/-! ### Numbers of lines -/

theorem lineNumber_succ (n : UInt32) (k : Nat) :
    n + 1 + UInt32.ofNat k = n + UInt32.ofNat (k + 1) := by
  rw [UInt32.ofNat_add, UInt32.add_assoc, UInt32.add_comm 1]
  rfl

theorem toNat_lineNumber {n : UInt32} {k : Nat} (h : n.toNat + k < 2 ^ 32) :
    (n + UInt32.ofNat k).toNat = n.toNat + k := by
  have hk : k < UInt32.size := lt_of_le_of_lt (Nat.le_add_left k n.toNat) h
  rw [UInt32.toNat_add, UInt32.toNat_ofNat_of_lt' hk, Nat.mod_eq_of_lt h]

theorem lineNumber_eq_iff {k : Nat} (h : k + 1 < 2 ^ 32) {number : UInt32} :
    number = 1 + UInt32.ofNat k ↔ number.toNat = k + 1 := by
  rw [← UInt32.toNat_inj, toNat_lineNumber (Nat.add_comm k 1 ▸ h), Nat.add_comm k]
  rfl

/-! ### Findings on numbered lines -/

theorem mem_findingsFrom_iff {file : String} {n : UInt32} {ls : List (List Char)} {f : Finding} :
    f ∈ findingsFrom file n ls ↔ ∃ k line r, ls[k]? = some line ∧ violation? line = some r ∧
      f = r.atLine file (n + UInt32.ofNat k) := by
  induction ls generalizing n with
  | nil => simp [findingsFrom]
  | cons line ls ih =>
    rw [findingsFrom, List.mem_append, ih]
    constructor
    · rintro (h | ⟨k, line', r, hk, hr, rfl⟩)
      · obtain ⟨r, hr, rfl⟩ : ∃ r, violation? line = some r ∧ r.atLine file n = f := by
          simpa using h
        exact ⟨0, line, r, rfl, hr, by simp⟩
      · exact ⟨k + 1, line', r, hk, hr, by rw [lineNumber_succ]⟩
    · rintro ⟨k, line', r, hk, hr, rfl⟩
      cases k with
      | zero =>
        obtain rfl : line = line' := by simpa using hk
        exact Or.inl (by simp [hr])
      | succ k => exact Or.inr ⟨k, line', r, hk, hr, by rw [lineNumber_succ]⟩

/-- The carriage returns in front of line feeds change no finding. -/
theorem findingsFrom_eq_of_isCutFrom {file : String} {n : UInt32} {ls pieces : List (List Char)}
    (h : List.Forall₂ IsCutFrom ls pieces) :
    findingsFrom file n ls = findingsFrom file n pieces := by
  induction h generalizing n with
  | nil => rfl
  | cons hline _ ih =>
    rw [findingsFrom, findingsFrom, ih]
    rcases hline with rfl | rfl
    · rfl
    · rw [violation?_append_return]

theorem findings_eq (content file : String) : findings content file =
    findingsFrom file 1 (linePieces (withoutMark content.toList)) :=
  findingsFrom_eq_of_isCutFrom (forall₂_lines_linePieces _)

/-- Findings come in strictly ascending order of their lines if the lines can be counted. -/
theorem pairwise_findingsFrom {file : String} {n : UInt32} {ls : List (List Char)}
    (h : n.toNat + ls.length ≤ 2 ^ 32) :
    (findingsFrom file n ls).Pairwise fun f g ↦ f.line < g.line := by
  induction ls generalizing n with
  | nil => exact List.Pairwise.nil
  | cons line ls ih =>
    rw [List.length_cons] at h
    rw [findingsFrom, List.pairwise_append]
    refine ⟨?_, ?_, ?_⟩
    · cases violation? line <;> simp
    · by_cases hls : ls = []
      · subst hls
        exact List.Pairwise.nil
      · have hpos : 0 < ls.length := List.length_pos_of_ne_nil hls
        have hn : (n + 1).toNat = n.toNat + 1 := toNat_lineNumber (k := 1) (by omega)
        exact ih (by omega)
    · intro f hf g hg
      obtain ⟨r, -, rfl⟩ : ∃ r, violation? line = some r ∧ r.atLine file n = f := by simpa using hf
      obtain ⟨k, line', r', hk, -, rfl⟩ := mem_findingsFrom_iff.mp hg
      have hlt : k < ls.length := (List.getElem?_eq_some_iff.mp hk).1
      rw [lineNumber_succ]
      simp only [Rule.atLine, Option.some_lt_some, UInt32.lt_iff_toNat_lt]
      rw [toNat_lineNumber (by omega)]
      omega

/-! ### The law -/

theorem mem_findings_iff {content file : String} {f : Finding} :
    f ∈ findings content file ↔ ∃ k line r, (linePieces (withoutMark content.toList))[k]? =
      some line ∧ violation? line = some r ∧ f = r.atLine file (1 + UInt32.ofNat k) := by
  rw [findings_eq, mem_findingsFrom_iff]

/-- The rule that a line in shell form violates is that of its keyword. -/
theorem violation?_cases {line : List Char} {r : Rule} :
    violation? line = some r ↔ ShellForm "ENTRYPOINT" line ∧ r = .shellEntrypoint ∨
      ShellForm "CMD" line ∧ r = .shellCommand := by
  rw [violation?_eq_some_iff]
  constructor
  · rintro ⟨keyword, hmem, hform⟩
    rcases List.mem_cons.mp hmem with h | h
    · cases h
      exact Or.inl ⟨hform, rfl⟩
    · cases List.mem_singleton.mp h
      exact Or.inr ⟨hform, rfl⟩
  · rintro (⟨hform, rfl⟩ | ⟨hform, rfl⟩)
    · exact ⟨_, List.mem_cons_self, hform⟩
    · exact ⟨_, List.mem_cons_of_mem _ List.mem_cons_self, hform⟩

/-- The findings on a build file that has less than 2^32 lines: one for each line in shell form,
under the rule of its keyword and with the number of the line, in the order of the lines. -/
theorem findings_line_law (content file : String)
    (h : (linePieces (withoutMark content.toList)).length < 2 ^ 32) :
    ((findings content file).Pairwise fun f g ↦ f.line < g.line) ∧
      ∀ f, f ∈ findings content file ↔ ∃ (k : Nat) (number : UInt32) (line : List Char),
        (linePieces (withoutMark content.toList))[k]? = some line ∧ number.toNat = k + 1 ∧
          (ShellForm "ENTRYPOINT" line ∧
              f = ⟨"DG001", .error, Rule.shellEntrypoint.template, file, some number⟩ ∨
            ShellForm "CMD" line ∧
              f = ⟨"DG002", .warning, Rule.shellCommand.template, file, some number⟩) := by
  refine ⟨?_, fun f ↦ ?_⟩
  · rw [findings_eq]
    exact pairwise_findingsFrom (Nat.add_comm _ _ ▸ h)
  rw [mem_findings_iff]
  constructor
  · rintro ⟨k, line, r, hk, hr, rfl⟩
    have hlt := (List.getElem?_eq_some_iff.mp hk).1
    refine ⟨k, _, line, hk, (lineNumber_eq_iff (by omega)).mp rfl, ?_⟩
    rcases violation?_cases.mp hr with ⟨hform, rfl⟩ | ⟨hform, rfl⟩
    · exact Or.inl ⟨hform, rfl⟩
    · exact Or.inr ⟨hform, rfl⟩
  · rintro ⟨k, number, line, hk, hnumber, hform⟩
    have hlt := (List.getElem?_eq_some_iff.mp hk).1
    obtain rfl := (lineNumber_eq_iff (by omega)).mpr hnumber
    rcases hform with ⟨hform, rfl⟩ | ⟨hform, rfl⟩
    · exact ⟨k, line, _, hk, violation?_cases.mpr (Or.inl ⟨hform, rfl⟩), rfl⟩
    · exact ⟨k, line, _, hk, violation?_cases.mpr (Or.inr ⟨hform, rfl⟩), rfl⟩

/-- Behind a byte-order mark and a comment, with blanks that are no plain spaces and a carriage
return at the end. -/
theorem findings_line_law_second_line :
    (linePieces (withoutMark "\ufeff# x\r\n\tcMd\u00a0 \u3000run\r\n".toList)).length < 2 ^ 32 ∧
      ⟨"DG002", .warning, Rule.shellCommand.template, "Dockerfile", some 2⟩ ∈
        findings "\ufeff# x\r\n\tcMd\u00a0 \u3000run\r\n" "Dockerfile" := by
  refine ⟨by decide, ((findings_line_law _ _ (by decide)).2 _).mpr ?_⟩
  have hform : ShellForm "CMD" "\tcMd\u00a0 \u3000run\r".toList :=
    ⟨['\t'], "cMd".toList, "\u00a0 \u3000".toList, 'r', "un\r".toList, by decide⟩
  exact ⟨1, 2, _, by decide, rfl, Or.inr ⟨hform, rfl⟩⟩

end ShutdownLint.BuildFile
