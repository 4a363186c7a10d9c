import Mathlib.Data.List.Forall2
import ShutdownLint.Proofs.Text.Blank
/-!
Letter case. Only the letters from A to Z have two forms, so a character beyond them is never the
same letter as another one, whatever its capital may look like.
-/

set_option autoImplicit false

namespace ShutdownLint.Text

/-- The two characters are equal or the two forms of a letter from A to Z, which are 32 apart. -/
inductive SameLetter (c d : Char) : Prop
  | equal (h : c = d)
  | capital (hc : 'A' ≤ c ∧ c ≤ 'Z') (hd : d.toNat = c.toNat + 32)
  | small (hd : 'A' ≤ d ∧ d ≤ 'Z') (hc : c.toNat = d.toNat + 32)

theorem sameLetter_iff {c d : Char} : SameLetter c d ↔ upperChar c = upperChar d := by
  rw [← Char.toNat_inj, toNat_upperChar, toNat_upperChar]
  constructor
  · rintro (rfl | ⟨hc, hd⟩ | ⟨hd, hc⟩)
    · rfl
    · have hc : 65 ≤ c.toNat ∧ c.toNat ≤ 90 := hc
      rw [if_neg (by omega), if_pos (by omega)]
      omega
    · have hd : 65 ≤ d.toNat ∧ d.toNat ≤ 90 := hd
      rw [if_pos (by omega), if_neg (by omega)]
      omega
  · intro h
    split at h <;> split at h
    case isTrue.isTrue => exact .equal (Char.toNat_inj.mp (by omega))
    case isTrue.isFalse hc _ =>
      have hd : 65 ≤ d.toNat ∧ d.toNat ≤ 90 := by omega
      exact .small hd (by omega)
    case isFalse.isTrue _ hd =>
      have hc : 65 ≤ c.toNat ∧ c.toNat ≤ 90 := by omega
      exact .capital hc (by omega)
    case isFalse.isFalse => exact .equal (Char.toNat_inj.mp h)

/-- Texts are equal up to letter case exactly if they are equal in capitals. -/
theorem forall₂_sameLetter_iff {cs ds : List Char} :
    List.Forall₂ SameLetter cs ds ↔ cs.map upperChar = ds.map upperChar := by
  have hsame : SameLetter = fun c d ↦ upperChar c = upperChar d := by
    funext c d
    exact propext sameLetter_iff
  rw [hsame, ← List.forall₂_eq_eq_eq, List.forall₂_map_left_iff, List.forall₂_map_right_iff]

end ShutdownLint.Text
