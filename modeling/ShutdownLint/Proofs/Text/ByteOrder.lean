import Mathlib.Data.Char
import Mathlib.Data.List.Lex
import Mathlib.Data.String.Basic
import ShutdownLint.Text.Utf8
/-!
The order of texts and the order of their bytes. UTF-8 gives the greater of two characters the
greater bytes, and of two different characters neither one's bytes begin the other's, so texts are
ordered by their bytes as they are by their characters.
-/

set_option autoImplicit false

namespace ShutdownLint.Text.Utf8

theorem ofNat_cons_lt {m n : Nat} (h : m < n) (hn : n < 256) (bs cs : List UInt8) :
    UInt8.ofNat m :: bs < UInt8.ofNat n :: cs := by
  refine List.cons_lt_cons_iff.mpr (Or.inl ?_)
  rw [UInt8.lt_iff_toNat_lt, UInt8.toNat_ofNat_of_lt' (by exact Nat.lt_trans h hn),
    UInt8.toNat_ofNat_of_lt' (by exact hn)]
  exact h

/-- Where the first bytes may be equal, the others decide. -/
theorem ofNat_cons_lt_of_le {m n : Nat} (h : m ≤ n) (hn : n < 256) {bs cs : List UInt8}
    (hrest : m = n → bs < cs) : UInt8.ofNat m :: bs < UInt8.ofNat n :: cs := by
  rcases Nat.lt_or_eq_of_le h with hlt | rfl
  · exact ofNat_cons_lt hlt hn bs cs
  · exact List.cons_lt_cons_iff.mpr (Or.inr ⟨rfl, hrest rfl⟩)

/-- The bytes of the greater character are greater, whatever follows. -/
theorem utf8EncodeChar_append_lt {c d : Char} (h : c < d) (bs cs : List UInt8) :
    String.utf8EncodeChar c ++ bs < String.utf8EncodeChar d ++ cs := by
  have hlt : c.val.toNat < d.val.toNat := h
  have hmax : d.val.toNat < 0x110000 := by
    have := d.valid
    simp only [UInt32.isValidChar, Nat.isValidChar] at this
    omega
  simp only [String.utf8EncodeChar]
  split_ifs <;> simp only [List.cons_append, List.nil_append]
  -- The first byte decides unless both characters take the same number of bytes, and more than one.
  all_goals first
    | exact ofNat_cons_lt (by omega) (by omega) _ _
    | refine ofNat_cons_lt_of_le (by omega) (by omega) fun h₁ ↦ ?_
  · exact ofNat_cons_lt (by omega) (by omega) _ _
  · refine ofNat_cons_lt_of_le (by omega) (by omega) fun h₂ ↦ ?_
    exact ofNat_cons_lt (by omega) (by omega) _ _
  · refine ofNat_cons_lt_of_le (by omega) (by omega) fun h₂ ↦ ?_
    refine ofNat_cons_lt_of_le (by omega) (by omega) fun h₃ ↦ ?_
    exact ofNat_cons_lt (by omega) (by omega) _ _

theorem utf8EncodeChar_ne_nil (c : Char) : String.utf8EncodeChar c ≠ [] := by
  simp only [String.utf8EncodeChar]
  split_ifs <;> exact List.cons_ne_nil _ _

theorem flatMap_utf8EncodeChar_lt {cs ds : List Char} (h : cs < ds) :
    cs.flatMap String.utf8EncodeChar < ds.flatMap String.utf8EncodeChar := by
  induction cs generalizing ds with
  | nil =>
    cases ds with
    | nil => exact absurd h (lt_irrefl _)
    | cons d ds =>
      obtain ⟨b, bs, hb⟩ := List.exists_cons_of_ne_nil (utf8EncodeChar_ne_nil d)
      rw [List.flatMap_cons, hb]
      exact List.nil_lt_cons _ _
  | cons c cs ih =>
    cases ds with
    | nil => exact absurd h (List.not_lt_nil _)
    | cons d ds =>
      rw [List.flatMap_cons, List.flatMap_cons]
      rcases List.cons_lt_cons_iff.mp h with hlt | ⟨rfl, hlt⟩
      · exact utf8EncodeChar_append_lt hlt _ _
      · exact List.append_left_lt (ih hlt)

/-- Texts stand in the order of their bytes. -/
theorem encode_lt_encode_iff {s t : String} : encode s < encode t ↔ s < t := by
  have hmono {s t : String} (h : s < t) : encode s < encode t :=
    flatMap_utf8EncodeChar_lt (String.lt_iff.mp h)
  refine ⟨fun h ↦ ?_, hmono⟩
  rcases lt_trichotomy s t with hlt | rfl | hgt
  · exact hlt
  · exact absurd h (List.lt_irrefl _)
  · exact absurd (hmono hgt) (List.lt_asymm h)

end ShutdownLint.Text.Utf8
