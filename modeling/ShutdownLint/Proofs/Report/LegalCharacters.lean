import Mathlib.Tactic.SplitIfs
import ShutdownLint.Proofs.Decimal.Digits
import ShutdownLint.Yaml.Number
/-!
The characters that XML allows in a document. Those of a YAML stream are among them, and so are
those of numbers.
-/

set_option autoImplicit false

namespace ShutdownLint.Report.Junit

/-- The ranges of the characters that XML allows in a document. -/
def legalRanges : List (Nat × Nat) :=
  [(0x9, 0xA), (0xD, 0xD), (0x20, 0xD7FF), (0xE000, 0xFFFD), (0x10000, 0x10FFFF)]

def isLegal (c : Char) : Bool :=
  legalRanges.any fun (low, high) ↦ low ≤ c.toNat && c.toNat ≤ high

/-- XML allows all characters of a text. -/
def AllLegal (cs : List Char) : Prop :=
  ∀ c ∈ cs, isLegal c = true

instance : DecidablePred AllLegal := fun cs ↦
  decidable_of_iff (cs.all isLegal = true) List.all_eq_true

theorem allLegal_cons {c : Char} {cs : List Char} :
    AllLegal (c :: cs) ↔ isLegal c = true ∧ AllLegal cs :=
  List.forall_mem_cons

@[simp] theorem allLegal_append {cs ds : List Char} :
    AllLegal (cs ++ ds) ↔ AllLegal cs ∧ AllLegal ds :=
  List.forall_mem_append

theorem allLegal_flatMap {α : Type} {as : List α} {f : α → List Char} :
    AllLegal (as.flatMap f) ↔ ∀ a ∈ as, AllLegal (f a) := by
  simp only [AllLegal, List.mem_flatMap, forall_exists_index, and_imp]
  exact ⟨fun h a ha c hc ↦ h c a ha hc, fun h c a ha hc ↦ h a ha c hc⟩

theorem AllLegal.take {cs : List Char} (h : AllLegal cs) (n : Nat) : AllLegal (cs.take n) :=
  fun c hc ↦ h c (List.mem_of_mem_take hc)

theorem AllLegal.drop {cs : List Char} (h : AllLegal cs) (n : Nat) : AllLegal (cs.drop n) :=
  fun c hc ↦ h c (List.mem_of_mem_drop hc)

theorem isLegal_iff {c : Char} : isLegal c = true ↔
    ∃ range ∈ legalRanges, range.1 ≤ c.toNat ∧ c.toNat ≤ range.2 := by
  simp [isLegal]

/-- A YAML stream holds no characters but legal ones. -/
theorem isLegal_of_isPrintable {c : Char} (h : Yaml.isPrintable c = true) : isLegal c = true := by
  have hvalid : c.toNat < 0xD800 ∨ 0xDFFF < c.toNat ∧ c.toNat < 0x110000 := c.valid
  have hlegal (range : Nat × Nat) (hrange : range ∈ legalRanges)
      (hc : range.1 ≤ c.toNat ∧ c.toNat ≤ range.2) : isLegal c = true :=
    isLegal_iff.mpr ⟨range, hrange, hc⟩
  simp only [Yaml.isPrintable, Bool.or_eq_true, beq_iff_eq, Bool.and_eq_true,
    decide_eq_true_eq] at h
  rcases h with (((((rfl | rfl) | rfl) | ⟨hlow, hhigh⟩) | rfl) | ⟨hlow, hhigh⟩) | hlow
  · rfl
  · rfl
  · rfl
  · have hlow : 0x20 ≤ c.toNat := hlow
    have hhigh : c.toNat ≤ 0x7E := hhigh
    exact hlegal (0x20, 0xD7FF) (by decide) ⟨hlow, by omega⟩
  · rfl
  · have hlow : 0xA0 ≤ c.toNat := hlow
    have hhigh : c.toNat ≤ 0xFFFD := hhigh
    -- Between the two ranges lie the numbers that belong to no character.
    rcases hvalid with hvalid | ⟨hvalid, -⟩
    · exact hlegal (0x20, 0xD7FF) (by decide) ⟨by omega, by omega⟩
    · exact hlegal (0xE000, 0xFFFD) (by decide) ⟨by omega, hhigh⟩
  · exact hlegal (0x10000, 0x10FFFF) (by decide) ⟨hlow, by omega⟩

/-! ### Numbers -/

theorem isLegal_of_isDigit {c : Char} (h : Decimal.isDigit c = true) : isLegal c = true := by
  obtain ⟨hlow, hhigh⟩ := Bool.and_eq_true_iff.mp h
  have hlow : 0x30 ≤ c.toNat := of_decide_eq_true hlow
  have hhigh : c.toNat ≤ 0x39 := of_decide_eq_true hhigh
  exact isLegal_iff.mpr ⟨(0x20, 0xD7FF), by decide, by omega, by omega⟩

theorem allLegal_digits (n : Nat) : AllLegal (Decimal.digits n) :=
  fun _ hc ↦ isLegal_of_isDigit (Decimal.isDigit_of_mem_digits hc)

theorem allLegal_text (n : Nat) : AllLegal (Decimal.text n).toList := by
  rw [Decimal.text, String.toList_ofList]
  exact allLegal_digits n

theorem allLegal_signedText (n : Int) : AllLegal (Decimal.signedText n).toList := by
  unfold Decimal.signedText
  split
  · rw [String.toList_append]
    exact allLegal_append.mpr ⟨by decide, allLegal_text _⟩
  · exact allLegal_text _

theorem allLegal_zeros (n : Nat) : AllLegal (List.replicate n '0') := by
  intro c hc
  rw [List.eq_of_mem_replicate hc]
  rfl

theorem allLegal_layOut (d : Nat) (k : Int) : AllLegal (Decimal.Binary64.layOut d k) := by
  have hdigits := allLegal_digits d
  have hzero : isLegal '0' = true := rfl
  have hpoint : isLegal '.' = true := rfl
  have hletter : isLegal 'e' = true := rfl
  have hnone : AllLegal [] := List.forall_mem_nil _
  unfold Decimal.Binary64.layOut
  dsimp only
  split_ifs <;>
    simp only [allLegal_append, allLegal_cons, allLegal_zeros, allLegal_signedText, hdigits,
      hdigits.take, hdigits.drop, hzero, hpoint, hletter, hnone, and_self]

theorem allLegal_floatText (x : Decimal.Binary64) : AllLegal x.text.toList := by
  cases x with
  | nan => decide
  | infinity negative => cases negative <;> decide
  | finite negative m e =>
    have hbody : AllLegal (if m = 0 then ['0', '.', '0'] else Decimal.Binary64.layOut
        (Decimal.Binary64.shortest m e).1 (Decimal.Binary64.shortest m e).2) := by
      split
      · decide
      · exact allLegal_layOut _ _
    rw [Decimal.Binary64.text, String.toList_ofList]
    split
    · exact allLegal_cons.mpr ⟨rfl, hbody⟩
    · exact hbody

theorem allLegal_numberText (n : Yaml.Number) : AllLegal n.text.toList := by
  cases n with
  | int n => exact allLegal_signedText n
  | float x => exact allLegal_floatText x

end ShutdownLint.Report.Junit
