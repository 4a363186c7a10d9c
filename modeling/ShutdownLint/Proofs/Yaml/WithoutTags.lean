import Mathlib.Logic.Relation
import ShutdownLint.Proofs.Yaml.Shape
/-!
Values without their tags.

`PutsTag` puts one tag around a value or around a value somewhere in it. Two values are the same
without tags exactly when such steps, forth and back, lead from the one to the other
(`eqvGen_putsTag_iff`).

The accessors look through tags: each answers for a value without tags what it answers for the
value, without tags.
-/

set_option autoImplicit false

namespace ShutdownLint.Yaml.Value

mutual

/-- A value without the tags around it and around the values in it. Keys keep their tags. -/
def withoutTags : Value → Value
  | .sequence items => .sequence (itemsWithoutTags items)
  | .mapping entries => .mapping (entriesWithoutTags entries)
  | .tagged _ v => v.withoutTags
  | v => v

def itemsWithoutTags : List Value → List Value
  | [] => []
  | v :: vs => v.withoutTags :: itemsWithoutTags vs

def entriesWithoutTags : List (Value × Value) → List (Value × Value)
  | [] => []
  | (k, v) :: es => (k, v.withoutTags) :: entriesWithoutTags es

end

/-- One tag is put around a value, or around one of the values in it, which keys are not. -/
inductive PutsTag : Value → Value → Prop
  | here (name : String) (v : Value) : PutsTag v (.tagged name v)
  | under (name : String) {v w : Value} (h : PutsTag v w) :
      PutsTag (.tagged name v) (.tagged name w)
  | item (before after : List Value) {v w : Value} (h : PutsTag v w) :
      PutsTag (.sequence (before ++ v :: after)) (.sequence (before ++ w :: after))
  | entry (before after : List (Value × Value)) (key : Value) {v w : Value} (h : PutsTag v w) :
      PutsTag (.mapping (before ++ (key, v) :: after)) (.mapping (before ++ (key, w) :: after))

theorem itemsWithoutTags_eq (items : List Value) :
    itemsWithoutTags items = items.map withoutTags := by
  induction items with
  | nil => rfl
  | cons v vs ih => rw [itemsWithoutTags, ih, List.map_cons]

theorem entriesWithoutTags_eq (entries : List (Value × Value)) :
    entriesWithoutTags entries = entries.map fun e ↦ (e.1, e.2.withoutTags) := by
  induction entries with
  | nil => rfl
  | cons e es ih => rw [entriesWithoutTags, ih, List.map_cons]

theorem PutsTag.withoutTags_eq {v w : Value} (h : PutsTag v w) :
    v.withoutTags = w.withoutTags := by
  induction h with
  | here name v => rw [withoutTags]
  | under name h ih => rw [withoutTags, withoutTags, ih]
  | item before after h ih =>
    simp only [withoutTags, itemsWithoutTags_eq, List.map_append, List.map_cons, ih]
  | entry before after key h ih =>
    simp only [withoutTags, entriesWithoutTags_eq, List.map_append, List.map_cons, ih]

open Relation (EqvGen)

/-- What the steps lead from and to may stand in a larger value. -/
theorem eqvGen_putsTag_lift {f : Value → Value} (hf : ∀ v w, PutsTag v w → PutsTag (f v) (f w))
    {v w : Value} (h : EqvGen PutsTag v w) : EqvGen PutsTag (f v) (f w) := by
  induction h with
  | rel v w h => exact .rel _ _ (hf v w h)
  | refl v => exact .refl _
  | symm v w _ ih => exact .symm _ _ ih
  | trans u v w _ _ ihuv ihvw => exact .trans _ _ _ ihuv ihvw

mutual

theorem eqvGen_putsTag_withoutTags : (v : Value) → EqvGen PutsTag v v.withoutTags
  | .sequence items => by
    rw [withoutTags]
    exact eqvGen_putsTag_itemsWithoutTags [] items
  | .mapping entries => by
    rw [withoutTags]
    exact eqvGen_putsTag_entriesWithoutTags [] entries
  | .tagged name v => by
    rw [withoutTags]
    exact .trans _ _ _ (.symm _ _ (.rel _ _ (.here name v))) (eqvGen_putsTag_withoutTags v)
  | .null | .bool _ | .number _ | .string _ => .refl _

/-- The items are done from the front, and those in `before` are done already. -/
theorem eqvGen_putsTag_itemsWithoutTags (before : List Value) : (items : List Value) →
    EqvGen PutsTag (.sequence (before ++ items)) (.sequence (before ++ itemsWithoutTags items))
  | [] => .refl _
  | v :: vs => by
    have hv := eqvGen_putsTag_lift (fun _ _ ↦ PutsTag.item before vs)
      (eqvGen_putsTag_withoutTags v)
    have hvs := eqvGen_putsTag_itemsWithoutTags (before ++ [v.withoutTags]) vs
    rw [List.append_assoc, List.append_assoc] at hvs
    exact .trans _ _ _ hv hvs

theorem eqvGen_putsTag_entriesWithoutTags (before : List (Value × Value)) :
    (entries : List (Value × Value)) → EqvGen PutsTag (.mapping (before ++ entries))
      (.mapping (before ++ entriesWithoutTags entries))
  | [] => .refl _
  | (k, v) :: es => by
    have hv := eqvGen_putsTag_lift (fun _ _ ↦ PutsTag.entry before es k)
      (eqvGen_putsTag_withoutTags v)
    have hes := eqvGen_putsTag_entriesWithoutTags (before ++ [(k, v.withoutTags)]) es
    rw [List.append_assoc, List.append_assoc] at hes
    exact .trans _ _ _ hv hes

end

theorem eqvGen_putsTag_iff {v w : Value} :
    EqvGen PutsTag v w ↔ v.withoutTags = w.withoutTags := by
  constructor
  · intro h
    induction h with
    | rel v w h => exact h.withoutTags_eq
    | refl v => rfl
    | symm v w _ ih => exact ih.symm
    | trans u v w _ _ ihuv ihvw => exact ihuv.trans ihvw
  · intro h
    have hw := (eqvGen_putsTag_withoutTags w).symm
    rw [← h] at hw
    exact .trans _ _ _ (eqvGen_putsTag_withoutTags v) hw

/-! ### Accessors -/

theorem lookup_entriesWithoutTags (key : String) (entries : List (Value × Value)) :
    lookup key (entriesWithoutTags entries) = (lookup key entries).map withoutTags := by
  induction entries with
  | nil => rfl
  | cons e es ih =>
    obtain ⟨k, v⟩ := e
    rw [entriesWithoutTags, lookup, lookup, List.find?_cons, List.find?_cons]
    cases k.isString key with
    | true => rfl
    | false => exact ih

theorem asMapping?_withoutTags (v : Value) :
    v.withoutTags.asMapping? = v.asMapping?.map entriesWithoutTags := by
  induction v using asMapping?.induct with
  | case1 entries => simp [withoutTags, asMapping?]
  | case2 name v ih => rw [withoutTags, ih, asMapping?]
  | case3 v hmapping htagged => cases v <;> simp_all [withoutTags, asMapping?]

theorem asSequence?_withoutTags (v : Value) :
    v.withoutTags.asSequence? = v.asSequence?.map fun items ↦ items.map withoutTags := by
  induction v using asSequence?.induct with
  | case1 items => simp [withoutTags, asSequence?, itemsWithoutTags_eq]
  | case2 name v ih => rw [withoutTags, ih, asSequence?]
  | case3 v hsequence htagged => cases v <;> simp_all [withoutTags, asSequence?]

theorem isNull_withoutTags (v : Value) : v.withoutTags.isNull = v.isNull := by
  induction v using isNull.induct with
  | case1 => rfl
  | case2 name v ih => rw [withoutTags, ih, isNull]
  | case3 v hnull htagged => cases v <;> simp_all [withoutTags, isNull]

end ShutdownLint.Yaml.Value
