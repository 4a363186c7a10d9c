import Mathlib.Data.List.Forall2
/-!
Two lists whose members are related one by one.
-/

set_option autoImplicit false

namespace ShutdownLint.Pointwise

variable {α β : Type} {R : α → β → Prop}

/-- A relation that is a function relates two lists when one is the image of the other. -/
theorem forall₂_iff_map_eq {g : α → β} (h : ∀ a b, R a b ↔ g a = b) {xs : List α} {ys : List β} :
    List.Forall₂ R xs ys ↔ xs.map g = ys := by
  obtain rfl : R = fun a b ↦ g a = b := by
    funext a b
    exact propext (h a b)
  rw [← List.forall₂_map_left_iff, List.forall₂_eq_eq_eq]

/-- Two images of one list are related if the images of each member are. -/
theorem forall₂_map_map {ι : Type} {f : ι → α} {g : ι → β} (h : ∀ i, R (f i) (g i))
    (xs : List ι) : List.Forall₂ R (xs.map f) (xs.map g) := by
  rw [List.forall₂_map_left_iff, List.forall₂_map_right_iff]
  exact List.forall₂_same.mpr fun i _ ↦ h i

theorem exists_forall₂_iff {xs : List α} :
    (∃ ys, List.Forall₂ R xs ys) ↔ ∀ x ∈ xs, ∃ y, R x y := by
  induction xs with
  | nil => simp
  | cons x xs ih =>
    simp only [List.forall₂_cons_left_iff, List.forall_mem_cons, ← ih]
    constructor
    · rintro ⟨_, y, ys, hy, hys, rfl⟩
      exact ⟨⟨y, hy⟩, ys, hys⟩
    · rintro ⟨⟨y, hy⟩, ys, hys⟩
      exact ⟨_, y, ys, hy, hys, rfl⟩

theorem exists_of_mem_left {xs : List α} {ys : List β} (h : List.Forall₂ R xs ys) {x : α}
    (hx : x ∈ xs) : ∃ y ∈ ys, R x y := by
  induction h with
  | nil => cases hx
  | cons hhead htail ih =>
    rcases List.mem_cons.mp hx with rfl | hx
    · exact ⟨_, List.mem_cons_self, hhead⟩
    · obtain ⟨y, hy, hxy⟩ := ih hx
      exact ⟨y, List.mem_cons_of_mem _ hy, hxy⟩

theorem exists_of_mem_right {xs : List α} {ys : List β} (h : List.Forall₂ R xs ys) {y : β}
    (hy : y ∈ ys) : ∃ x ∈ xs, R x y :=
  exists_of_mem_left h.flip hy

theorem exists_of_getElem?_left {xs : List α} {ys : List β} (h : List.Forall₂ R xs ys) {i : Nat}
    {x : α} (hx : xs[i]? = some x) : ∃ y, ys[i]? = some y ∧ R x y := by
  induction h generalizing i with
  | nil => cases hx
  | cons hhead _ ih =>
    cases i with
    | zero =>
      cases hx
      exact ⟨_, rfl, hhead⟩
    | succ i =>
      rw [List.getElem?_cons_succ] at hx ⊢
      exact ih hx

/-- A filter that changes what it lets through relates these members to their images. -/
theorem forall₂_filterMap (f : α → Option β) (xs : List α) :
    List.Forall₂ (fun x y ↦ f x = some y) (xs.filter fun x ↦ (f x).isSome) (xs.filterMap f) := by
  induction xs with
  | nil => exact .nil
  | cons x xs ih =>
    cases h : f x with
    | none => simpa [h] using ih
    | some y => simpa [h] using ih

end ShutdownLint.Pointwise
