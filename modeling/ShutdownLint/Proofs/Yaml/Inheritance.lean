import ShutdownLint.Proofs.Yaml.MergeWalk
/-!
Which fields a merged mapping has, by the mappings that lie a number of merges away.

A field is inherited over `n` merges when it stands in a mapping that many merges away and in no
nearer one. The walk follows one merge key of each mapping, so the fields that arrive are those
inherited over at most one merge. A chain of two or more leaves a merge key behind.
-/

set_option autoImplicit false

namespace ShutdownLint.Yaml.Value

variable {key : String} {es fs hs : List (Value × Value)} {v w : Value}

/-- The mappings that lie the given number of merges away, in order of precedence. -/
def mergesAway : Nat → List (Value × Value) → List (List (Value × Value))
  | 0, es => [es]
  | n + 1, es => (sources es).flatMap (mergesAway n)

/-- The field of the first mapping that lies the given number of merges away and has it. -/
def fieldAway (key : String) (n : Nat) (es : List (Value × Value)) : Option Value :=
  (mergesAway n es).findSome? (lookup key)

/-- The nearest mapping that has a field lies the given number of merges away. -/
def Inherits (key : String) (n : Nat) (es : List (Value × Value)) (v : Value) : Prop :=
  fieldAway key n es = some v ∧ ∀ m < n, fieldAway key m es = none

theorem fieldAway_zero : fieldAway key 0 es = lookup key es := by
  rw [fieldAway, mergesAway, List.findSome?_cons, List.findSome?_nil]
  cases lookup key es <;> rfl

theorem fieldAway_one : fieldAway key 1 es = (sources es).findSome? (lookup key) := by
  rw [fieldAway, mergesAway]
  induction sources es with
  | nil => rfl
  | cons s ss ih =>
    rw [List.flatMap_cons, List.findSome?_append, ih, ← fieldAway, fieldAway_zero,
      List.findSome?_cons]
    cases lookup key s <;> rfl

theorem Inherits.unique {m n : Nat} (hv : Inherits key m es v) (hw : Inherits key n es w) :
    m = n ∧ v = w := by
  rcases Nat.lt_trichotomy m n with hlt | rfl | hlt
  · have hnone := hw.2 m hlt
    rw [hv.1] at hnone
    cases hnone
  · have hsome := hv.1.symm.trans hw.1
    exact ⟨rfl, Option.some.inj hsome⟩
  · have hnone := hv.2 n hlt
    rw [hw.1] at hnone
    cases hnone

/-- One step brings the fields that are inherited over at most one merge. -/
theorem lookup_mergeHere_eq_some_iff (hkeys : DistinctKeys es) (h : mergeHere es = .ok hs)
    (hkey : key ≠ mergeKey) : lookup key hs = some v ↔ ∃ n ≤ 1, Inherits key n es v := by
  rw [lookup_mergeHere hkeys h, if_neg hkey, ← fieldAway_zero, ← fieldAway_one]
  constructor
  · intro hv
    cases hzero : fieldAway key 0 es with
    | some u =>
      rw [hzero, Option.some_or] at hv
      exact ⟨0, by omega, hzero.trans hv, by simp⟩
    | none =>
      rw [hzero, Option.none_or] at hv
      refine ⟨1, Nat.le_refl 1, hv, fun m hm ↦ ?_⟩
      rwa [Nat.lt_one_iff.mp hm]
  · rintro ⟨n, hn, hv, hnearer⟩
    cases n with
    | zero => rw [hv, Option.some_or]
    | succ n =>
      obtain rfl : n = 0 := by omega
      rw [hnearer 0 (by omega), Option.none_or, hv]

/-! ### Merged mappings -/

theorem lookup_merged_iff (hkeys : DistinctKeys es)
    (h : (mapping es).merged = .ok (.mapping fs)) (hkey : key ≠ mergeKey) :
    lookup key fs = some w ↔ ∃ n ≤ 1, ∃ v, Inherits key n es v ∧ v.merged = .ok w := by
  obtain ⟨hs, _, hstep, hmerges, ⟨⟩⟩ := merged_mapping_eq_ok_iff.mp h
  rw [lookup_eq_some_iff_of_mergesTo hmerges]
  simp only [lookup_mergeHere_eq_some_iff hkeys hstep hkey]
  constructor
  · rintro ⟨v, ⟨n, hn, hv⟩, hw⟩
    exact ⟨n, hn, v, hv, hw⟩
  · rintro ⟨n, hn, v, hv, hw⟩
    exact ⟨v, ⟨n, hn, hv⟩, hw⟩

/-- What a mapping inherits over at most one merge is there in the end, and is merged in turn. -/
theorem exists_lookup_merged (hkeys : DistinctKeys es)
    (h : (mapping es).merged = .ok (.mapping fs)) (hkey : key ≠ mergeKey) {n : Nat} (hn : n ≤ 1)
    (hv : Inherits key n es v) : ∃ w, lookup key fs = some w ∧ v.merged = .ok w := by
  obtain ⟨hs, _, hstep, hmerges, ⟨⟩⟩ := merged_mapping_eq_ok_iff.mp h
  have hlookup := (lookup_mergeHere_eq_some_iff hkeys hstep hkey).mpr ⟨n, hn, hv⟩
  obtain ⟨e, he, hmerged⟩ := Pointwise.exists_of_mem_left hmerges (mem_of_lookup_eq_some hlookup)
  exact ⟨e.2, (lookup_eq_some_iff_of_mergesTo hmerges).mpr ⟨v, hlookup, hmerged.2⟩, hmerged.2⟩

/-- A field that is inherited over at most one merge is met by the walk. -/
theorem Inherits.visited (hkeys : DistinctKeys es) (h : (mapping es).merged = .ok (.mapping fs))
    (hkey : key ≠ mergeKey) {n : Nat} (hn : n ≤ 1) (hv : Inherits key n es v)
    {gs : List (Value × Value)} (hgs : Visited v gs) : Visited (.mapping es) gs := by
  obtain ⟨hs, _, hstep, -, -⟩ := merged_mapping_eq_ok_iff.mp h
  have hlookup := (lookup_mergeHere_eq_some_iff hkeys hstep hkey).mpr ⟨n, hn, hv⟩
  exact .entry hstep (mem_of_lookup_eq_some hlookup) hgs

/-- A merged mapping has a merge key exactly when one of its sources does. -/
theorem lookup_mergeKey_merged_eq_none_iff (hkeys : DistinctKeys es)
    (h : (mapping es).merged = .ok (.mapping fs)) :
    lookup mergeKey fs = none ↔ ∀ s ∈ sources es, lookup mergeKey s = none := by
  obtain ⟨hs, _, hstep, hmerges, ⟨⟩⟩ := merged_mapping_eq_ok_iff.mp h
  have hhs : lookup mergeKey hs = _ := lookup_mergeHere hkeys hstep
  rw [if_pos rfl, Option.none_or] at hhs
  rw [lookup_eq_none_iff_of_mergesTo hmerges, hhs, List.findSome?_eq_none_iff]

end ShutdownLint.Yaml.Value
