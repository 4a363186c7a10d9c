import Mathlib.Data.List.Nodup
import Mathlib.Data.String.Basic
/-!
Entries in the order of their keys. Where no key occurs twice, sorting leaves no two entries at the
same level.
-/

set_option autoImplicit false

namespace ShutdownLint.KeyOrder

variable {α : Type}

theorem pairwise_mergeSort {entries : List (String × α)} (distinct : (entries.map Prod.fst).Nodup) :
    (entries.mergeSort fun a b ↦ a.1 ≤ b.1).Pairwise fun a b ↦ a.1 < b.1 := by
  have hsorted : (entries.mergeSort fun a b ↦ a.1 ≤ b.1).Pairwise fun a b ↦ a.1 ≤ b.1 := by
    refine (List.pairwise_mergeSort (fun a b c hab hbc ↦ ?_) (fun a b ↦ ?_) _).imp fun h ↦ ?_
    · exact decide_eq_true (le_trans (of_decide_eq_true hab) (of_decide_eq_true hbc))
    · simpa only [Bool.or_eq_true, decide_eq_true_eq] using le_total a.1 b.1
    · exact of_decide_eq_true h
  have hdistinct : (entries.mergeSort fun a b ↦ a.1 ≤ b.1).Pairwise fun a b ↦ a.1 ≠ b.1 := by
    have hperm := (List.mergeSort_perm entries fun a b ↦ a.1 ≤ b.1).map Prod.fst
    exact List.pairwise_map.mp (hperm.nodup_iff.mpr distinct)
  exact hsorted.imp₂ (fun a b hle hne ↦ lt_of_le_of_ne hle hne) hdistinct

end ShutdownLint.KeyOrder
