import Mathlib.Tactic.SplitIfs
import ShutdownLint.Proofs.Decimal.Digits
import ShutdownLint.Proofs.Yaml.BlockLines
import ShutdownLint.Yaml.NodeValue
/-!
The values of words. What begins with a letter is no number, so it is a string unless it is one of
the words for null and the booleans. Decimal digits are none of these words, and they are the whole
number that they spell if it fits in 64 bits.
-/

set_option autoImplicit false

namespace ShutdownLint.Yaml

namespace Number

/-! ### Notations -/

theorem isZeroPadded_cons {c : Char} (hplus : c ≠ '+') (hminus : c ≠ '-') (hzero : c ≠ '0')
    (cs : List Char) : isZeroPadded (c :: cs) = false := by
  unfold isZeroPadded
  split <;> simp_all

/-- Without a sign and a leading zero only decimal digits are a number. -/
theorem readMagnitude?_cons {c : Char} (hplus : c ≠ '+') (hminus : c ≠ '-') (hzero : c ≠ '0')
    (cs : List Char) : readMagnitude? (c :: cs) = readDigits? 10 (c :: cs) := by
  unfold readMagnitude?
  simp [hzero, isZeroPadded_cons hplus hminus hzero cs]

/-! ### Letters -/

theorem isDigit_eq_false_of_isAlpha {c : Char} (h : c.isAlpha = true) :
    Decimal.isDigit c = false := by
  refine Bool.eq_false_iff.mpr fun hd ↦ ?_
  have halpha := toNat_of_isAlpha h
  have hdigit := toNat_of_isDigit hd
  omega

/-- As hexadecimal digits letters stand for ten and more. -/
theorem le_of_hexDigit?_of_isAlpha {c : Char} (hc : c.isAlpha = true) {d : Nat}
    (h : Text.hexDigit? c = some d) : 10 ≤ d := by
  unfold Text.hexDigit? at h
  split_ifs at h with hdigit
  · have hnone := isDigit_eq_false_of_isAlpha hc
    rw [Decimal.isDigit, hdigit] at hnone
    cases hnone
  · obtain rfl := Option.some.inj h
    exact Nat.le_add_left ..
  · obtain rfl := Option.some.inj h
    exact Nat.le_add_left ..

theorem readInt_of_isAlpha {c : Char} (hc : c.isAlpha = true) (cs : List Char) :
    readInt (c :: cs) = .notInt := by
  have hne {d : Char} (hd : d.isAlpha = false) : c ≠ d := ne_of_kind hc hd
  have hfirst : (Text.hexDigit? c).bind (fun d ↦ if d < 10 then some (10 * 0 + d) else none) =
      none :=
    Option.bind_eq_none_iff.mpr fun d hd ↦
      if_neg (Nat.not_lt.mpr (le_of_hexDigit?_of_isAlpha hc hd))
  have hdigits : readDigits? 10 (c :: cs) = none := by
    rw [readDigits?, List.foldlM_cons, hfirst]
    rfl
  simp [readInt, hne, readMagnitude?_cons, hdigits]

theorem readFloat?_of_isAlpha {c : Char} (hc : c.isAlpha = true) (cs : List Char) :
    readFloat? (c :: cs) = none := by
  have hne {d : Char} (hd : d.isAlpha = false) : c ≠ d := ne_of_kind hc hd
  have hread : Decimal.Binary64.read? (c :: cs) = none := by
    simp [Decimal.Binary64.read?, hne, Decimal.Binary64.readUnsigned?,
      isDigit_eq_false_of_isAlpha hc]
  simp [readFloat?, hne, hread]

/-! ### Digits -/

theorem hexDigit?_of_isDigit {c : Char} (h : Decimal.isDigit c = true) :
    Text.hexDigit? c = some (Decimal.digitValue c) ∧ Decimal.digitValue c < 10 := by
  refine ⟨if_pos h, ?_⟩
  simp [Decimal.isDigit, Decimal.digitValue, Char.le_def, UInt32.le_iff_toNat_le] at h ⊢
  omega

theorem readDigits?_ten {cs : List Char} (hne : cs ≠ [])
    (h : ∀ c ∈ cs, Decimal.isDigit c = true) : readDigits? 10 cs = some (Decimal.value cs) := by
  have hfold (n : Nat) : cs.foldlM (fun n c ↦ (Text.hexDigit? c).bind fun d ↦
      if d < 10 then some (10 * n + d) else none) n =
      some (cs.foldl (fun n c ↦ 10 * n + Decimal.digitValue c) n) := by
    clear hne
    induction cs generalizing n with
    | nil => rfl
    | cons c cs ih =>
      obtain ⟨hc, hcs⟩ := List.forall_mem_cons.mp h
      obtain ⟨hdigit, hlt⟩ := hexDigit?_of_isDigit hc
      rw [List.foldlM_cons, hdigit, Option.bind_some, if_pos hlt]
      exact ih hcs _
  rw [readDigits?, if_neg (by simpa using hne)]
  exact hfold 0

theorem readInt_digits {n : Nat} (h : n < 2 ^ 64) : readInt (Decimal.digits n) = .fits n := by
  have hread : readDigits? 10 (Decimal.digits n) = some n := by
    rw [readDigits?_ten (Decimal.digits_ne_nil n) fun _ ↦ Decimal.isDigit_of_mem_digits,
      Decimal.value_digits]
  rcases Decimal.digits_cases n with hzero | ⟨c, cs, hcs, hzero, hdigit⟩
  · rw [hzero] at hread ⊢
    obtain rfl : 0 = n := Option.some.inj hread
    rfl
  · have hplus : c ≠ '+' := ne_of_kind hdigit rfl
    have hminus : c ≠ '-' := ne_of_kind hdigit rfl
    have hfits : n < Decimal.twoTo 64 := h
    rw [hcs] at hread ⊢
    simp [readInt, hplus, hminus, readMagnitude?_cons hplus hminus hzero, hread, hfits]

end Number

/-! ### Words -/

/-- A word that begins with a letter is a string if it is not reserved. -/
theorem plainValue_of_isAlpha {s : String} {c : Char} {cs : List Char} (hs : s.toList = c :: cs)
    (hc : c.isAlpha = true) (hnull : isNullText s = false) :
    plainValue s = .ok ((readBool? s).elim (.string s) .bool) := by
  have hempty : s.isEmpty = false := by
    simp [← String.toList_eq_nil_iff, hs]
  unfold plainValue
  cases hbool : readBool? s with
  | some b => simp [hempty, hnull]
  | none =>
    simp [hempty, hnull, hs, Number.readInt_of_isAlpha hc, Number.isZeroPadded_cons,
      ne_of_kind hc, Number.readFloat?_of_isAlpha hc]

theorem plainValue_text {n : Nat} (h : n < 2 ^ 64) :
    plainValue (Decimal.text n) = .ok (.number (.int n)) := by
  have hs : (Decimal.text n).toList = Decimal.digits n := String.toList_ofList
  obtain ⟨c, cs, hcs⟩ := List.exists_cons_of_ne_nil (Decimal.digits_ne_nil n)
  have hdigit : Decimal.isDigit c = true :=
    Decimal.isDigit_of_mem_digits (hcs ▸ List.mem_cons_self)
  have hword {t : String} {d : Char} {ds : List Char} (ht : t.toList = d :: ds)
      (hd : Decimal.isDigit d = false) : (Decimal.text n == t) = false := by
    refine beq_false_of_ne fun heq ↦ ne_of_kind hdigit hd ?_
    rw [← heq, hs, hcs] at ht
    exact (List.cons.inj ht).1
  have hempty : (Decimal.text n).isEmpty = false := by
    simp [← String.toList_eq_nil_iff, hs, hcs]
  have hnull : isNullText (Decimal.text n) = false := by
    unfold isNullText
    rw [hword rfl rfl, hword rfl rfl, hword rfl rfl, hword rfl rfl]
    rfl
  have hbool : readBool? (Decimal.text n) = none := by
    unfold readBool?
    rw [hword rfl rfl, hword rfl rfl, hword rfl rfl, hword rfl rfl, hword rfl rfl, hword rfl rfl]
    rfl
  simp [plainValue, hempty, hnull, hbool, hs, Number.readInt_digits h]

end ShutdownLint.Yaml
