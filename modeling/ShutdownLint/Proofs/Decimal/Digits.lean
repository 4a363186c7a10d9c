import Mathlib.Algebra.Group.Nat.Defs
import ShutdownLint.Decimal.Digits
/-!
Digits and the numbers they spell. The digits of a number spell it, also behind zeros, and the first
of them is no zero unless it is the only one.
-/

set_option autoImplicit false

namespace ShutdownLint.Decimal

theorem isDigit_of_mem_digits {n : Nat} {c : Char} (h : c ∈ digits n) : isDigit c = true :=
  Nat.isDigit_of_mem_toDigits (by decide) (by decide) h

theorem digits_ne_nil (n : Nat) : digits n ≠ [] :=
  Nat.toDigits_ne_nil

theorem value_digits (n : Nat) : value (digits n) = n :=
  Nat.ofDigitChars_ten_toDigits

theorem value_replicate_zero_append (k : Nat) (cs : List Char) :
    value (List.replicate k '0' ++ cs) = value cs := by
  induction k with
  | zero => rfl
  | succ k ih => exact ih

/-- The first digit is a zero for the number zero only. -/
theorem digits_cases (n : Nat) :
    digits n = ['0'] ∨ ∃ c cs, digits n = c :: cs ∧ c ≠ '0' ∧ isDigit c = true := by
  by_cases hzero : n = 0
  · subst hzero
    exact Or.inl rfl
  refine Or.inr ?_
  induction n using Nat.strongRecOn with
  | ind n ih =>
    by_cases hsmall : n < 10
    · have hone : digits n = [n.digitChar] := Nat.toDigits_of_lt_base hsmall
      have hmem : n.digitChar ∈ digits n := by
        rw [hone]
        exact List.mem_singleton_self _
      exact ⟨n.digitChar, [], hone, mt Nat.digitChar_eq_zero.mp hzero,
        isDigit_of_mem_digits hmem⟩
    · obtain ⟨c, cs, hcs, hc⟩ := ih (n / 10) (by omega) (by omega)
      have hsplit : digits n = digits (n / 10) ++ [(n % 10).digitChar] :=
        Nat.toDigits_of_base_le (by decide) (by omega)
      exact ⟨c, cs ++ [(n % 10).digitChar], by rw [hsplit, hcs]; rfl, hc⟩

/-! ### A fixed number of digits -/

theorem isDigit_of_mem_padded {width n : Nat} {c : Char} (h : c ∈ padded width n) :
    isDigit c = true := by
  rcases List.mem_append.mp h with h | h
  · rw [List.eq_of_mem_replicate h]
    rfl
  · exact isDigit_of_mem_digits h

theorem value_padded (width n : Nat) : value (padded width n) = n :=
  (value_replicate_zero_append _ _).trans (value_digits n)

theorem length_padded {width n : Nat} (hwidth : 0 < width) (h : n < 10 ^ width) :
    (padded width n).length = width := by
  rw [padded, List.length_leftpad]
  exact Nat.max_eq_left ((Nat.length_toDigits_le_iff (by decide) hwidth).mpr h)

end ShutdownLint.Decimal
